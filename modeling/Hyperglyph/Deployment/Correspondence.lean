import Hyperglyph.Broker.Exchange
import Hyperglyph.Deployment.Abandonment
import Hyperglyph.Deployment.Receivers

/-! Which answer belongs to which request. A process that stopped waiting for an answer finds it
in its queue later; what it acts on is nevertheless the answer to what it asked. -/
namespace Hyperglyph

open Monitor

/-- The packet is an answer to this request. -/
def ReplyTo (m : MessageV1) (packet : Packet) : Prop :=
  replyFits m packet.message packet.attached = true

/-- The packet is an answer to the request in this datagram. -/
def AnsweredBy (d : List UInt8) (packet : Packet) : Prop :=
  ∃ m, brokerReceive d = .message m ∧ ReplyTo m packet

theorem AnsweredBy.replyTo {m : MessageV1} {packet : Packet} (h : AnsweredBy m.encode packet) :
    ReplyTo m packet := by
  obtain ⟨m', hm, hreply⟩ := h
  obtain ⟨-, rfl⟩ := brokerReceive_eq_message.mp hm
  rwa [List.take_of_length_le m.length_encode.le, m.decode_encode] at hreply

theorem AnsweredBy.ne_nil {d : List UInt8} {packet : Packet} (h : AnsweredBy d packet) : d ≠ [] := by
  rintro rfl
  obtain ⟨m, hm, -⟩ := h
  exact brokerReceive_nil hm

namespace Standing

variable {c : ConnId} {s : Standing} {e : Event} {events : List Event}

/-- The datagrams without an answer where a connection stands. -/
def Leaves : Standing → List (List UInt8) → Prop
  | unknown, rest | idle, rest => rest = []
  | owed m, rest => ∃ d, rest = [d] ∧ brokerReceive d = .message m
  | spent, rest | gone, rest => rest.length ≤ 1

theorem takenFrom_off (h : e.on c = false) : takenFrom c [e] = [] := by
  cases e with
  | received c' d => simpa [takenFrom] using h
  | accepted | sent | unsent | closed | badClose => rfl

theorem sentTo_off (h : e.on c = false) : sentTo c [e] = [] := by
  cases e with
  | sent c' m attached => simpa [sentTo, Event.on] using h
  | accepted | received | unsent | closed | badClose => rfl

/-- The answers are those to the first datagrams, in their order. -/
theorem reads_paired (h : reads (move c) unknown events = some s) :
    ∃ answered rest, takenFrom c events = answered ++ rest ∧
      List.Forall₂ AnsweredBy answered (sentTo c events) ∧ s.Leaves rest := by
  induction events using List.reverseRecOn generalizing s with
  | nil =>
      cases h
      exact ⟨[], [], rfl, .nil, rfl⟩
  | append_singleton events e ih =>
      obtain ⟨u, hbefore, hlast⟩ := reads_append_eq_some.mp h
      rw [reads_singleton] at hlast
      obtain ⟨answered, rest, htaken, hpaired, hleaves⟩ := ih hbefore
      rw [takenFrom_append, sentTo_append, htaken]
      by_cases hon : e.on c = true
      · simp only [move, hon, if_true] at hlast
        cases e with
        | accepted c' =>
            cases u <;> simp [follow] at hlast
            subst hlast
            exact ⟨answered, rest, by simp [takenFrom], by simpa [sentTo] using hpaired, hleaves⟩
        | received c' d =>
            obtain rfl : c' = c := by simpa [Event.on] using hon
            cases u <;> simp [follow] at hlast
            obtain rfl : rest = [] := hleaves
            refine ⟨answered, [d], by simp [takenFrom], by simpa [sentTo] using hpaired, ?_⟩
            split at hlast
            · next m hm =>
                cases hlast
                exact ⟨d, rfl, hm⟩
            · cases hlast
              exact le_refl 1
        | sent c' r attached =>
            obtain rfl : c' = c := by simpa [Event.on] using hon
            cases u <;> simp [follow] at hlast
            obtain ⟨hfits, rfl⟩ := hlast
            obtain ⟨d, rfl, hm⟩ := hleaves
            refine ⟨answered ++ [d], [], by simp [takenFrom], ?_, ?_⟩
            · rw [show sentTo c' [.sent c' r attached] = [⟨r, attached⟩] by simp [sentTo]]
              exact List.rel_append hpaired (.cons ⟨_, hm, hfits⟩ .nil)
            · split
              · rfl
              · exact Nat.zero_le 1
        | unsent c' r attached =>
            cases u <;> simp [follow] at hlast
            obtain ⟨-, rfl⟩ := hlast
            obtain ⟨d, rfl, -⟩ := hleaves
            exact ⟨answered, [d], by simp [takenFrom], by simpa [sentTo] using hpaired, le_refl 1⟩
        | closed o =>
            refine ⟨answered, rest, by simp [takenFrom], by simpa [sentTo] using hpaired, ?_⟩
            cases u <;> simp [follow] at hlast <;> subst hlast
            · obtain rfl : rest = [] := hleaves
              exact Nat.zero_le 1
            · exact hleaves
        | badClose => cases hon
      · have hoff : e.on c = false := Bool.not_eq_true _ ▸ hon
        rw [move_of_off hoff] at hlast
        cases hlast
        rw [takenFrom_off hoff, sentTo_off hoff, List.append_nil, List.append_nil]
        exact ⟨answered, rest, rfl, hpaired, hleaves⟩

end Standing

/-- The process it happened to. -/
def Happening.conn : Happening → ConnId
  | .acquired c _ | .startupComplete c _ | .sent c _ | .published c _ | .abandoned c => c

theorem Happening.Idle.conn_eq {c : ConnId} {h : Happening} (hidle : h.Idle c) : h.conn = c := by
  cases h with
  | acquired | startupComplete | abandoned => simp_all [Happening.Idle, Happening.conn]
  | sent | published => exact hidle.elim

/-- The requests of `c`, in their order. -/
def requestsOf (c : ConnId) (history : List Happening) : List MessageV1 :=
  history.filterMap fun
    | .sent c' m => if c' = c then some m else none
    | _ => none

section Requests

variable {c c' : ConnId} {history more : List Happening} {m : MessageV1} {config : Config}
  {x x' : Participant} {ch ch' : Channel} {happened : List Happening}

theorem requestsOf_append :
    requestsOf c (history ++ more) = requestsOf c history ++ requestsOf c more :=
  List.filterMap_append

theorem mem_requestsOf : m ∈ requestsOf c history ↔ Happening.sent c m ∈ history := by
  induction history with
  | nil => simp [requestsOf]
  | cons h history ih =>
      cases h with
      | sent c' m' =>
          by_cases hc : c' = c
          · subst hc
            simp [requestsOf] at ih ⊢
            rw [ih]
          · simp [requestsOf, hc, Ne.symm hc] at ih ⊢
            rw [ih]
      | acquired | startupComplete | published | abandoned => simpa [requestsOf] using ih

theorem requestsOf_eq_nil : requestsOf c history = [] ↔ ∀ m, Happening.sent c m ∉ history := by
  rw [List.eq_nil_iff_forall_not_mem]
  exact forall_congr' fun m => not_congr mem_requestsOf

theorem requestsOf_idle (h : ∀ h ∈ happened, h.Idle c) : requestsOf c' happened = [] := by
  rw [requestsOf_eq_nil]
  exact fun m hm => h _ hm

/-- Every request of an act goes to the end of the queue. -/
theorem Acted.pushes (h : Acted config c x ch (x', ch', happened)) :
    ch'.toBroker = ch.toBroker ++ (requestsOf c happened).map MessageV1.encode := by
  cases h with
  | silent _ _ hbroker _ _ hidle => rw [hbroker, requestsOf_idle hidle, List.map_nil, List.append_nil]
  | stayed | begun | asked | obtained | offered | confirmed | notified => simp [requestsOf]

/-- A process makes happen what is its own. -/
theorem Acted.own (h : Acted config c x ch (x', ch', happened)) : ∀ h ∈ happened, h.conn = c := by
  cases h with
  | silent _ _ _ _ _ hidle => exact fun h hmem => (hidle h hmem).conn_eq
  | stayed | begun | asked | obtained | offered | confirmed | notified => simp [Happening.conn]

theorem requestsOf_other (h : ∀ h ∈ happened, h.conn = c) (hne : c' ≠ c) :
    requestsOf c' happened = [] := by
  rw [requestsOf_eq_nil]
  exact fun m hm => hne (h _ hm)

theorem Acted.unread (h : Acted config c x ch (x', ch', happened)) : ch'.toPeer <:+ ch.toPeer := by
  cases h with
  | obtained _ _ hqueue | confirmed _ _ hqueue =>
      rw [hqueue]
      exact List.suffix_cons _ _
  | silent _ _ _ hpeer =>
      rcases hpeer with hpeer | hpeer
      · exact hpeer ▸ List.suffix_refl _
      · exact hpeer ▸ List.tail_suffix _
  | stayed | begun | asked | offered | notified => exact List.suffix_refl _

/-- A process that is gone says nothing more. -/
theorem Acted.mute (h : Acted config c x ch (x', ch', happened)) (hpc : x.pc = .ended) :
    x'.pc = .ended ∧ ch'.toBroker = ch.toBroker := by
  have hpushes := h.pushes
  cases h with
  | stayed => exact ⟨hpc, rfl⟩
  | silent _ hend _ _ _ hidle =>
      rw [requestsOf_idle hidle, List.map_nil, List.append_nil] at hpushes
      exact ⟨hend hpc, hpushes⟩
  | begun hbefore | asked hbefore | obtained hbefore | offered hbefore | confirmed hbefore =>
      rw [hpc] at hbefore
      cases hbefore
  | notified _ hne => exact absurd hpc hne

/-- What was in the queue was taken from it or is still there. -/
theorem Drains.split {closed : Bool} {q taken q' : List (List UInt8)} (h : Drains closed q taken q')
    (hq : [] ∉ q) : q = taken.filter (· ≠ []) ++ q' := by
  induction h with
  | done q => rfl
  | head d _ ih =>
      obtain ⟨hd, hrest⟩ := not_or.mp (mt List.mem_cons.mpr hq)
      rw [List.filter_cons_of_pos (by simpa using Ne.symm hd), List.cons_append, ← ih hrest]
  | hangup _ _ ih =>
      rw [List.filter_cons_of_neg (by simp)]
      exact ih hq

end Requests

namespace ParticipantPc

/-- The requests that were sent at most when a process stands here. -/
def asked : ParticipantPc → List MessageType
  | idle | connected => []
  | awaitAllocation | running => [.acquire]
  | awaitPublication _ | abortDue => [.acquire, .ready]
  | awaitAbort | settled => [.acquire, .ready, .abort]
  | awaitDetach | ended => [.acquire, .ready, .abort, .detach]

theorem asked_sublist_ended (pc : ParticipantPc) : pc.asked.Sublist ended.asked := by
  cases pc with
  | idle | connected | awaitAllocation | running | awaitPublication | abortDue | awaitAbort | settled
  | awaitDetach | ended => simp [asked]

end ParticipantPc

namespace Participant

variable {config : Config} {c : ConnId} {x : Participant} {ch : Channel}

/-- The outcome sends requests that are due. -/
def InTurn (c : ConnId) (x : Participant) (r : Outcome) : Prop :=
  ∃ types, (requestsOf c r.2.2).map (·.type) = types.map MessageType.code ∧
    (x.pc.asked ++ types).Sublist r.1.pc.asked

theorem inTurn_silent {r : Outcome} (hsilent : requestsOf c r.2.2 = [])
    (h : x.pc.asked.Sublist r.1.pc.asked) : InTurn c x r :=
  ⟨[], by rw [hsilent]; rfl, by rwa [List.append_nil]⟩

theorem inTurn_finish {x' : Participant} {ch' : Channel} {happened : List Happening}
    (h : requestsOf c happened = []) : InTurn c x (x'.finish ch' happened) :=
  inTurn_silent h x.pc.asked_sublist_ended

theorem inTurn_settle {x' : Participant} {ch' : Channel}
    (h : x.pc.asked.Sublist ParticipantPc.settled.asked) : InTurn c x (x'.settle ch') :=
  inTurn_silent rfl h

theorem inTurn_notify {type : MessageType} {awaiting : ParticipantPc} {otherwise : Participant → Outcome}
    (answer : Except Errno Unit) (hsent : (x.pc.asked ++ [type]).Sublist awaiting.asked)
    (hother : ∀ x', InTurn c x (otherwise x')) :
    InTurn c x (x.notify c ch type answer awaiting otherwise) := by
  unfold notify
  split
  · exact hother x
  · split
    · exact hother _
    · exact ⟨[type], by simp [requestsOf, brokerMessageInit], hsent⟩

theorem act_inTurn (config : Config) (c : ConnId) (x : Participant) (ch : Channel) (act : Act) :
    InTurn c x (x.act config c ch act) := by
  have hstay : InTurn c x (x.stay ch) := inTurn_silent rfl (List.Sublist.refl _)
  cases act with
  | createSegments a =>
      simp only [Participant.act]
      split
      · next hpc =>
          unfold createSegments
          split
          · exact inTurn_silent rfl x.pc.asked_sublist_ended
          · dsimp only
            split
            · exact inTurn_finish rfl
            · exact inTurn_silent rfl (by simp [hpc, ParticipantPc.asked])
      · exact hstay
  | sendAcquire answer =>
      simp only [Participant.act]
      split
      · next hpc =>
          unfold sendAcquire
          split
          · exact hstay
          · split
            · exact inTurn_finish rfl
            · exact ⟨[.acquire], by simp [requestsOf, acquireRequest, brokerMessageInit],
                by simp [hpc, ParticipantPc.asked]⟩
      · exact hstay
  | receiveAllocation delivery a =>
      simp only [Participant.act]
      split
      · next hpc =>
          unfold receiveAllocation
          dsimp only
          split
          · exact inTurn_finish rfl
          · exact inTurn_silent rfl (by simp [hpc, ParticipantPc.asked])
      · exact hstay
  | startupComplete reattached sharedGlobals answer =>
      simp only [Participant.act]
      split
      · next hpc =>
          unfold startupComplete
          split
          · dsimp only
            split
            · exact inTurn_silent rfl (by simp [hpc, ParticipantPc.asked])
            · split
              · exact inTurn_silent rfl (by simp [hpc, ParticipantPc.asked])
              · exact ⟨[.ready], by simp [requestsOf, readyRequest, brokerMessageInit],
                  by simp [hpc, ParticipantPc.asked]⟩
          · exact inTurn_silent rfl (by simp [hpc, ParticipantPc.asked])
      · exact hstay
  | receivePublication delivery =>
      simp only [Participant.act]
      split
      · next hpc =>
          unfold receivePublication
          dsimp only
          split
          · exact inTurn_silent rfl (by simp [hpc, ParticipantPc.asked])
          · exact inTurn_silent rfl (by simp [hpc, ParticipantPc.asked])
      · exact hstay
  | startupAborted =>
      simp only [Participant.act]
      split
      · next hpc => exact inTurn_silent rfl (by simp [hpc, ParticipantPc.asked])
      · exact hstay
  | sendAbort answer =>
      simp only [Participant.act]
      split
      · next hpc =>
          exact inTurn_notify answer (by simp [hpc, ParticipantPc.asked]) fun x' =>
            inTurn_settle (by simp [hpc, ParticipantPc.asked])
      · exact hstay
  | receiveAbort delivery =>
      simp only [Participant.act]
      split
      · next hpc => exact inTurn_settle (by simp [hpc, ParticipantPc.asked])
      · exact hstay
  | detach address segment unmapped =>
      simp only [Participant.act]
      split
      · next hpc => exact inTurn_settle (by simp [hpc, ParticipantPc.asked])
      · next hpc => exact inTurn_settle (by simp [hpc, ParticipantPc.asked])
      · exact hstay
  | shutdown answer unmapped =>
      simp only [Participant.act]
      split
      · next hpc => exact inTurn_notify answer (by simp [hpc, ParticipantPc.asked]) fun x' => inTurn_finish rfl
      · next hpc => exact inTurn_notify answer (by simp [hpc, ParticipantPc.asked]) fun x' => inTurn_finish rfl
      · exact hstay
  | receiveDetach delivery unmapped =>
      simp only [Participant.act]
      split
      · exact inTurn_finish rfl
      · exact hstay
  | crash => exact inTurn_finish rfl

end Participant

/-- What a process that waits has asked and read. -/
inductive Turn (client : BrokerClient) (requests : List MessageV1) (replies unread : List Packet) :
    ParticipantPc → Prop
  | unasked {pc : ParticipantPc} : pc = .idle ∨ pc = .connected → requests = [] →
      Turn client requests replies unread pc
  | acquiring {m : MessageV1} : requests = [m] → m.type = MessageType.acquire.code →
      unread = replies → Turn client requests replies unread .awaitAllocation
  | running {m : MessageV1} {reply : Packet} : requests = [m] →
      m.type = MessageType.acquire.code → replies = reply :: unread →
      Turn client requests replies unread .running
  | publishing {m : MessageV1} {reply : Packet} {g : UInt64} :
      requests = [m, readyRequest client g] → replies = reply :: unread →
      Turn client requests replies unread (.awaitPublication g)
  | late {pc : ParticipantPc} : pc.late = true → Turn client requests replies unread pc

/-- The first answer decided an acquisition, the second one a publication. -/
def Decided (size : UInt64) (requests : List MessageV1) (replies : List Packet) : Happening → Prop
  | .acquired _ acquisition => acquisition.status = .allocFailure ∨
      ∃ m more packet rest, requests = m :: more ∧ m.type = MessageType.acquire.code ∧
        replies = packet :: rest ∧ acquisition.Follows size packet
  | .published _ publication =>
      ∃ m more first ack rest,
        requests = m :: readyRequest publication.client publication.sharedGlobals :: more ∧
        replies = first :: ack :: rest ∧ ack.message.type = MessageType.ack.code
  | _ => True

section Turn

variable {config : Config} {c : ConnId} {x x' : Participant} {ch ch' : Channel} {size : UInt64}
  {client : BrokerClient} {requests : List MessageV1} {replies unread : List Packet}
  {pc : ParticipantPc} {happened : List Happening} {h : Happening}

/-- New answers are at the end of both. -/
theorem Turn.hear (hturn : Turn client requests replies unread pc) (new : List Packet) :
    Turn client requests (replies ++ new) (unread ++ new) pc := by
  cases hturn with
  | unasked hpc hnone => exact .unasked hpc hnone
  | acquiring hone htype hall => exact .acquiring hone htype (by rw [hall])
  | running hone htype hread => exact .running hone htype (by rw [hread, List.cons_append])
  | publishing htwo hread => exact .publishing htwo (by rw [hread, List.cons_append])
  | late hlate => exact .late hlate

theorem Decided.grow (hdecided : Decided size requests replies h) (sent : List MessageV1)
    (new : List Packet) : Decided size (requests ++ sent) (replies ++ new) h := by
  cases h with
  | acquired c' acquisition =>
      refine hdecided.imp_right ?_
      rintro ⟨m, more, packet, rest, rfl, htype, rfl, hfollows⟩
      exact ⟨m, more ++ sent, packet, rest ++ new, rfl, htype, rfl, hfollows⟩
  | published c' publication =>
      obtain ⟨m, more, first, ack, rest, rfl, rfl, htype⟩ := hdecided
      exact ⟨m, more ++ sent, first, ack, rest ++ new, rfl, rfl, htype⟩
  | startupComplete | sent | abandoned => trivial

theorem decided_idle (hidle : h.Idle c) : Decided size requests replies h := by
  cases h with
  | acquired c' acquisition => exact .inl hidle.2
  | published => exact hidle.elim
  | startupComplete | sent | abandoned => trivial

/-- An act takes the answer to its own request. -/
theorem Acted.keepsTurn (hact : Acted config c x ch (x', ch', happened))
    (hturn : Turn x.client requests replies ch.toPeer x.pc)
    (hquiet : requests = [] → ch.toPeer = replies) :
    Turn x'.client (requests ++ requestsOf c happened) replies ch'.toPeer x'.pc ∧
      ∀ h ∈ happened,
        Decided config.requestedSize (requests ++ requestsOf c happened) replies h := by
  cases hact with
  | stayed => simpa [requestsOf] using hturn
  | begun hpc hpc' =>
      rw [hpc] at hturn
      cases hturn with
      | unasked _ hnone => exact ⟨.unasked (.inr hpc') (by simp [hnone, requestsOf]), by simp⟩
      | late hlate => cases hlate
  | @asked _ path key hpc hpc' =>
      rw [hpc] at hturn
      cases hturn with
      | unasked _ hnone =>
          have hone : requests ++ requestsOf c [.sent c (acquireRequest key config.requestedSize)] =
              [acquireRequest key config.requestedSize] := by simp [hnone, requestsOf]
          refine ⟨?_, by simp [Decided]⟩
          rw [hpc']
          exact .acquiring hone rfl (hquiet hnone)
      | late hlate => cases hlate
  | @obtained _ packet rest acquisition hpc hpc' hqueue _ _ _ hfollows =>
      rw [hpc] at hturn
      cases hturn with
      | unasked hnew => simp at hnew
      | @acquiring m hone htype hall =>
          have hreplies : replies = packet :: rest := hall.symm.trans hqueue
          refine ⟨?_, ?_⟩
          · rw [hpc']
            exact .running (by simp [hone, requestsOf]) htype hreplies
          · intro h hmem
            rw [List.mem_singleton.mp hmem]
            exact .inr ⟨m, [], packet, rest, by simp [hone, requestsOf], htype, hreplies, hfollows⟩
      | late hlate => cases hlate
  | @offered _ g hpc hpc' hclient =>
      rw [hpc] at hturn
      cases hturn with
      | unasked hnew => simp at hnew
      | @running m _ hone _ hread =>
          have htwo : requests ++ requestsOf c [.startupComplete c g,
              .sent c (readyRequest x.client g)] = [m, readyRequest x.client g] := by
            simp [hone, requestsOf]
          refine ⟨?_, by simp [Decided]⟩
          rw [hpc', hclient]
          exact .publishing htwo hread
      | late hlate => cases hlate
  | @confirmed _ g packet rest hpc hlate hqueue hack =>
      rw [hpc] at hturn
      cases hturn with
      | unasked hnew => simp at hnew
      | @publishing m first _ htwo hread =>
          refine ⟨.late hlate, ?_⟩
          intro h hmem
          rw [List.mem_singleton.mp hmem]
          exact ⟨m, [], first, packet, rest, by simp [htwo, requestsOf, readyRequest,
            BrokerClient.published], by rw [hread, hqueue], hack⟩
      | late hlate => cases hlate
  | notified _ _ hlate => exact ⟨.late hlate, by simp [Decided]⟩
  | silent hlate _ _ _ _ hidle =>
      rw [requestsOf_idle hidle, List.append_nil]
      exact ⟨.late hlate, fun h hmem => decided_idle (hidle h hmem)⟩

end Turn

namespace Deployment

variable {config : ConnId → Config} {s t : Deployment} {c c' : ConnId} {i : Input}
  {happened : List Happening}

/-- Nothing is lost between the two ends. -/
structure Delivered (s : Deployment) : Prop where
  ordered : ∀ c, ∃ types : List MessageType,
    (requestsOf c s.history).map (·.type) = types.map MessageType.code ∧ types.Sublist (s.participants c).pc.asked
  queued : ∀ c, (requestsOf c s.history).map MessageV1.encode =
    (takenFrom c s.log).filter (· ≠ []) ++ (s.channels c).toBroker
  unread : ∀ c, (s.channels c).toPeer <:+ sentTo c s.log

theorem delivered_start (maxClients listenerFd : Nat) : (start maxClients listenerFd).Delivered where
  ordered := fun _ => ⟨[], rfl, List.nil_sublist _⟩
  queued := fun _ => rfl
  unread := fun _ => List.suffix_refl _

theorem Delivered.nonempty (h : s.Delivered) (c : ConnId) : [] ∉ (s.channels c).toBroker := by
  intro hmem
  have hrequest : [] ∈ (requestsOf c s.history).map MessageV1.encode := by
    rw [h.queued c]
    exact List.mem_append_right _ hmem
  obtain ⟨m, -, hm⟩ := List.mem_map.mp hrequest
  have hlen := m.length_encode
  rw [hm] at hlen
  cases hlen

theorem Delivered.broker (h : s.Delivered) (hs : Reachable config s)
    (hstep : s.stepBroker i = some t) : t.Delivered := by
  obtain ⟨hbroker, hparticipants, hhistory, habsorb⟩ := stepBroker_eq_some hstep
  have hlog : t.log = s.log ++ s.broker.newEvents (s.broker.step i) := by
    rw [log, hbroker]
    exact hs.broker.log_step i
  have hchannel := absorbed habsorb
  constructor
  · intro c
    rw [hhistory, hparticipants]
    exact h.ordered c
  · intro c
    rw [hhistory, h.queued c, hlog, takenFrom_append, List.filter_append, List.append_assoc,
      (hchannel c).toBroker.split (h.nonempty c)]
  · intro c
    obtain ⟨read, hread⟩ := h.unread c
    refine ⟨read, ?_⟩
    rw [hlog, sentTo_append, (hchannel c).toPeer, ← List.append_assoc, hread]

theorem ActStep.inTurn {act : Act}
    (h : ActStep config s c (s.stepParticipant config c act) happened) :
    ∃ types, (requestsOf c happened).map (·.type) = types.map MessageType.code ∧
      ((s.participants c).pc.asked ++ types).Sublist
        ((s.stepParticipant config c act).participants c).pc.asked := by
  obtain rfl : ((s.participants c).act (config c) c (s.channels c) act).2.2 = happened :=
    List.append_cancel_left h.history
  have hparticipant : (s.stepParticipant config c act).participants c =
      ((s.participants c).act (config c) c (s.channels c) act).1 := Function.update_self ..
  rw [hparticipant]
  exact Participant.act_inTurn (config c) c (s.participants c) (s.channels c) act

theorem Delivered.participant {act : Act} (h : s.Delivered)
    (hstep : ActStep config s c (s.stepParticipant config c act) happened) :
    (s.stepParticipant config c act).Delivered := by
  have hturn := hstep.inTurn
  have hlog : (s.stepParticipant config c act).log = s.log := by rw [log, hstep.broker]
  generalize s.stepParticipant config c act = t at hstep hturn hlog
  have hother : ∀ c', c' ≠ c → requestsOf c' t.history = requestsOf c' s.history := by
    intro c' hne
    rw [hstep.history, requestsOf_append, requestsOf_other hstep.acted.own hne, List.append_nil]
  constructor
  · intro c'
    by_cases heq : c' = c
    · subst heq
      obtain ⟨before, hbefore, hasked⟩ := h.ordered c'
      obtain ⟨types, htypes, hnext⟩ := hturn
      refine ⟨before ++ types, ?_, (hasked.append_right types).trans hnext⟩
      rw [hstep.history, requestsOf_append, List.map_append, hbefore, htypes, List.map_append]
    · rw [hother c' heq, (hstep.others c' heq).2]
      exact h.ordered c'
  · intro c'
    rw [hlog]
    by_cases heq : c' = c
    · subst heq
      rw [hstep.history, requestsOf_append, List.map_append, h.queued c', hstep.acted.pushes,
        List.append_assoc]
    · rw [hother c' heq, (hstep.others c' heq).1]
      exact h.queued c'
  · intro c'
    rw [hlog]
    by_cases heq : c' = c
    · subst heq
      exact hstep.acted.unread.trans (h.unread c')
    · rw [(hstep.others c' heq).1]
      exact h.unread c'

theorem Reachable.delivered (h : Reachable config s) : s.Delivered := by
  refine Execution.Reachable.invariant_with (I := Delivered) ?_ ?_ h
  · rintro s ⟨maxClients, listenerFd, rfl⟩
    exact delivered_start maxClients listenerFd
  · intro s label t hs hdelivered hstep
    cases label with
    | broker i => exact hdelivered.broker hs hstep
    | participant c act =>
        cases hstep
        obtain ⟨happened, hact⟩ := stepParticipant_spec config s c act
        exact hdelivered.participant hact

/-- The answers are those to the first requests; until the connection is closed, the other
requests are on their way. -/
theorem Reachable.paired (h : Reachable config s) (c : ConnId) :
    List.Forall₂ ReplyTo ((requestsOf c s.history).take (sentTo c s.log).length)
        (sentTo c s.log) ∧
      (Event.closed (.conn c) ∉ s.log → (s.channels c).toBroker =
        ((requestsOf c s.history).drop (sentTo c s.log).length).map MessageV1.encode) := by
  obtain ⟨standing, hreads, hrest⟩ := h.broker.refines.follows c
  change reads (Standing.move c) .unknown s.log = some standing at hreads
  obtain ⟨answered, rest, htaken, hpaired, hleaves⟩ := Standing.reads_paired hreads
  have hkept : answered.filter (· ≠ []) = answered := by
    have hread : ∀ d ∈ answered, d ≠ [] :=
      ((List.forall₂_and_left _ _).mp (hpaired.imp fun _ _ h => ⟨h.ne_nil, h⟩)).1
    rw [List.filter_eq_self]
    exact fun d hd => decide_eq_true (hread d hd)
  have hall : (requestsOf c s.history).map MessageV1.encode =
      answered ++ (rest.filter (· ≠ []) ++ (s.channels c).toBroker) := by
    rw [h.delivered.queued c, htaken, List.filter_append, hkept, List.append_assoc]
  have hlen := hpaired.length_eq
  constructor
  · have htake : ((requestsOf c s.history).take (sentTo c s.log).length).map MessageV1.encode =
        answered := by
      rw [List.map_take, hall, ← hlen, List.take_left]
    rw [← htake, List.forall₂_map_left_iff] at hpaired
    exact hpaired.imp fun _ _ => AnsweredBy.replyTo
  · intro hopen
    have hnone : rest = [] := by
      rcases hrest with rfl | rfl | rfl
      · exact hleaves
      · exact hleaves
      · exact absurd ((Standing.standing_iff hreads).2.mp rfl) hopen
    rw [List.map_drop, hall, ← hlen, List.drop_left, hnone, List.filter_nil, List.nil_append]

/-- Who has asked nothing has no answer to read. -/
theorem Reachable.quiet (h : Reachable config s) (hnone : requestsOf c s.history = []) :
    (s.channels c).toPeer = sentTo c s.log := by
  have hlen := (h.paired c).1.length_eq
  rw [hnone, List.take_nil, List.length_nil, eq_comm, List.length_eq_zero_iff] at hlen
  have hunread := h.delivered.unread c
  rw [hlen, List.suffix_nil] at hunread
  rw [hunread, hlen]

/-- Who waits, waits for the answer to its last request. -/
structure Attentive (config : ConnId → Config) (s : Deployment) (c : ConnId) : Prop where
  turn : Turn (s.participants c).client (requestsOf c s.history) (sentTo c s.log)
    (s.channels c).toPeer (s.participants c).pc
  decided : ∀ h ∈ s.history, h.conn = c →
    Decided (config c).requestedSize (requestsOf c s.history) (sentTo c s.log) h

theorem Attentive.broker (h : Attentive config s c) (hs : Reachable config s)
    (hstep : s.stepBroker i = some t) : Attentive config t c := by
  obtain ⟨hbroker, hparticipants, hhistory, habsorb⟩ := stepBroker_eq_some hstep
  have hreplies : sentTo c t.log =
      sentTo c s.log ++ sentTo c (s.broker.newEvents (s.broker.step i)) := by
    rw [← sentTo_append, log, hbroker]
    exact congrArg (sentTo c) (hs.broker.log_step i)
  constructor
  · rw [hhistory, hparticipants, hreplies, (absorbed habsorb c).toPeer]
    exact h.turn.hear _
  · intro happening hmem hconn
    rw [hhistory] at hmem ⊢
    have hgrown := (h.decided happening hmem hconn).grow []
      (sentTo c (s.broker.newEvents (s.broker.step i)))
    rwa [List.append_nil, ← hreplies] at hgrown

theorem Attentive.participant (h : Attentive config s c') (hs : Reachable config s)
    (hstep : ActStep config s c t happened) : Attentive config t c' := by
  have hlog : t.log = s.log := by rw [log, hstep.broker]
  have hrequests : requestsOf c' t.history = requestsOf c' s.history ++ requestsOf c' happened := by
    rw [hstep.history, requestsOf_append]
  have hold : ∀ happening ∈ s.history, happening.conn = c' →
      Decided (config c').requestedSize (requestsOf c' t.history) (sentTo c' t.log) happening := by
    intro happening hmem hconn
    have hgrown := (h.decided happening hmem hconn).grow (requestsOf c' happened) []
    rwa [List.append_nil, ← hrequests, ← hlog] at hgrown
  by_cases heq : c' = c
  · subst heq
    obtain ⟨hturn, hdecided⟩ := hstep.acted.keepsTurn h.turn hs.quiet
    rw [← hrequests, ← hlog] at hturn hdecided
    refine ⟨hturn, ?_⟩
    intro happening hmem hconn
    rw [hstep.history] at hmem
    rcases List.mem_append.mp hmem with hmem | hmem
    · exact hold happening hmem hconn
    · exact hdecided happening hmem
  · have hsame : requestsOf c' t.history = requestsOf c' s.history := by
      rw [hrequests, requestsOf_other hstep.acted.own heq, List.append_nil]
    constructor
    · rw [hsame, hlog, (hstep.others c' heq).1, (hstep.others c' heq).2]
      exact h.turn
    · intro happening hmem hconn
      rw [hstep.history] at hmem
      rcases List.mem_append.mp hmem with hmem | hmem
      · exact hold happening hmem hconn
      · exact absurd (hconn.symm.trans (hstep.acted.own happening hmem)) heq

theorem Reachable.attentive (h : Reachable config s) (c : ConnId) : Attentive config s c := by
  refine Execution.Reachable.invariant_with (I := fun s => Attentive config s c) ?_ ?_ h
  · rintro s ⟨maxClients, listenerFd, rfl⟩
    exact ⟨.unasked (.inl rfl) rfl, by simp [start]⟩
  · intro s label t hs hattentive hstep
    cases label with
    | broker i => exact hattentive.broker hs hstep
    | participant c' act =>
        cases hstep
        obtain ⟨happened, hact⟩ := stepParticipant_spec config s c' act
        exact hattentive.participant hs hact

/-- The requests of `c` and the answers to them. -/
structure Corresponds (config : ConnId → Config) (s : Deployment) (c : ConnId) : Prop where
  /-- Each request is sent at most once, and in this order. -/
  ordered : ((requestsOf c s.history).map (·.type)).Sublist
    ([.acquire, .ready, .abort, .detach].map MessageType.code)
  /-- The answers are those to the first requests, one to each. -/
  paired : List.Forall₂ ReplyTo ((requestsOf c s.history).take (sentTo c s.log).length)
    (sentTo c s.log)
  /-- Until the broker closes the connection, what it did not answer is on its way. -/
  waiting : Event.closed (.conn c) ∉ s.log → (s.channels c).toBroker =
    ((requestsOf c s.history).drop (sentTo c s.log).length).map MessageV1.encode
  /-- What the process has not read are the last answers. -/
  unread : (s.channels c).toPeer <:+ sentTo c s.log
  /-- `ahe_broker_client_acquire` succeeds with the answer to its `ACQUIRE`. -/
  acquired : ∀ acquisition, .acquired c acquisition ∈ s.history →
    acquisition.status ≠ .allocFailure → ∃ m more packet rest,
      requestsOf c s.history = m :: more ∧ m.type = MessageType.acquire.code ∧
      sentTo c s.log = packet :: rest ∧ ReplyTo m packet ∧
      acquisition.Follows (config c).requestedSize packet
  /-- `ahe_broker_client_publish` succeeds with the answer to its `READY`. -/
  published : ∀ publication, .published c publication ∈ s.history → ∃ m more first ack rest,
    requestsOf c s.history =
      m :: readyRequest publication.client publication.sharedGlobals :: more ∧
    sentTo c s.log = first :: ack :: rest ∧
    ReplyTo (readyRequest publication.client publication.sharedGlobals) ack ∧
    ack.message = brokerMessageInit .ack

theorem replyTo_ack {m : MessageV1} {packet : Packet} (h : ReplyTo m packet)
    (hready : m.type = MessageType.ready.code) (hack : packet.message.type = MessageType.ack.code) :
    packet.message = brokerMessageInit .ack := by
  have hother : MessageType.ready.code ≠ MessageType.acquire.code := by decide
  simp only [ReplyTo, replyFits, hready, if_neg hother, if_true, Bool.and_eq_true,
    Bool.or_eq_true, beq_iff_eq] at h
  rcases h.2 with hmessage | hmessage
  · exact hmessage
  · rw [hmessage] at hack
    exact absurd hack (by decide)

theorem replies_match (h : Reachable config s) (c : ConnId) : Corresponds config s c where
  ordered := by
    obtain ⟨types, htypes, hasked⟩ := h.delivered.ordered c
    rw [htypes]
    exact (hasked.trans (ParticipantPc.asked_sublist_ended _)).map _
  paired := (h.paired c).1
  waiting := (h.paired c).2
  unread := h.delivered.unread c
  acquired := by
    intro acquisition hmem hsuccess
    obtain ⟨m, more, packet, rest, hrequests, htype, hreplies, hfollows⟩ :=
      ((h.attentive c).decided _ hmem rfl).resolve_left hsuccess
    have hpaired := (h.paired c).1
    rw [hrequests, hreplies, List.length_cons, List.take_succ_cons, List.forall₂_cons] at hpaired
    exact ⟨m, more, packet, rest, hrequests, htype, hreplies, hpaired.1, hfollows⟩
  published := by
    intro publication hmem
    obtain ⟨m, more, first, ack, rest, hrequests, hreplies, hack⟩ :=
      (h.attentive c).decided _ hmem rfl
    have hpaired := (h.paired c).1
    rw [hrequests, hreplies, List.length_cons, List.length_cons, List.take_succ_cons,
      List.take_succ_cons, List.forall₂_cons, List.forall₂_cons] at hpaired
    exact ⟨m, more, first, ack, rest, hrequests, hreplies, hpaired.2.1,
      replyTo_ack hpaired.2.1 rfl hack⟩

/-- The creator gave up its `READY`; the answer to it and the one to `ABORT` wait for it. -/
theorem replies_match_late : ∃ s, (start 0 3).run pageConfig givingUpLate = some s ∧
    requestsOf 0 s.history = [pageAcquire, pageReady, pageAbort] ∧
    sentTo 0 s.log =
      [⟨{ brokerMessageInit .create with mappingSize := 4096 }, [.memfd 0, .memfd 1]⟩,
        ⟨brokerMessageInit .ack, []⟩, ⟨brokerMessageInit .ack, []⟩] ∧
    Corresponds pageConfig s 0 := by
  obtain ⟨s, hrun, hstate⟩ := Option.map_eq_some_iff.mp givingUpLate_state
  obtain ⟨hhistory, hlog⟩ := Prod.mk.inj hstate
  refine ⟨s, hrun, ?_, ?_, replies_match ((reachable_start 0 3).run hrun) 0⟩
  · rw [hhistory]
    rfl
  · rw [hlog]
    rfl

end Deployment

end Hyperglyph
