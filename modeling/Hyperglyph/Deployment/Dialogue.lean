import Hyperglyph.Deployment.Activation
import Hyperglyph.Deployment.Provenance

/-! The exchange between the broker and one process, from both ends: what is on its way in
each state of the process, and what the broker holds meanwhile. -/
namespace Hyperglyph

open History

/-- The broker holds the generation of `c` with the memfds `p` and `p + 1`, unless it has
closed the connection. -/
def Building (b : Broker) (c : ConnId) (p : Nat) (size : UInt64) : Prop :=
  Event.closed (.conn c) ∈ b.kernel.log ∨ ∃ key, b.ledger.phase = .building c p size key

/-- The generation is ready with these values, unless the broker has returned. -/
def Committed (b : Broker) (p : Nat) (size base offset : UInt64) : Prop :=
  b.pc = .returned ∨ ∃ key, b.ledger.phase = .published p size base offset key

/-- The descriptors of the client name the memfds `p` and `p + 1`. -/
structure Participant.Owns (x : Participant) (p : Nat) : Prop where
  cache : x.process.fds.get x.client.cacheFd = some (.memfd p)
  lock : x.process.fds.get x.client.lockFd = some (.memfd (p + 1))

/-- What is on its way when the process stands at `pc`. -/
inductive Stage (b : Broker) (c : ConnId) (x : Participant) (ch : Channel) : ParticipantPc → Prop
  | unasked {pc : ParticipantPc} : pc = .idle ∨ pc = .connected → ch.toBroker = [] →
      ch.toPeer = [] → Stage b c x ch pc
  | asked {m : MessageV1} : ch.toBroker = [m.encode] → m.framed = true →
      m.type = MessageType.acquire.code → ch.toPeer = [] → Stage b c x ch .awaitAllocation
  | answered : ch.toBroker = [] →
      (ch.toPeer = [] ∨ ∃ packet, ch.toPeer = [packet] ∧
        (packet.message.type = MessageType.create.code → ∃ p,
          packet.attached = [.memfd p, .memfd (p + 1)] ∧
            Building b c p packet.message.mappingSize)) →
      Stage b c x ch .awaitAllocation
  | running : ch.toBroker = [] → ch.toPeer = [] →
      (x.client.creator = true → ∃ p, x.Owns p ∧ Building b c p x.client.mappingSize) →
      Stage b c x ch .running
  | offered {g : UInt64} {p : Nat} : ch.toBroker = [(readyRequest x.client g).encode] →
      ch.toPeer = [] → publishRefused x.client g = false → x.Owns p →
      Building b c p x.client.mappingSize → Stage b c x ch (.awaitPublication g)
  | replied {g : UInt64} {p : Nat} : ch.toBroker = [] → x.Owns p →
      (ch.toPeer = [] ∨ ∃ packet, ch.toPeer = [packet] ∧
        (packet.message.type = MessageType.ack.code →
          Committed b p x.client.mappingSize x.client.mapping (g - x.client.mapping))) →
      Stage b c x ch (.awaitPublication g)
  | late {pc : ParticipantPc} : pc.late = true → Stage b c x ch pc

def IsReady (d : List UInt8) (m : MessageV1) : Prop :=
  brokerReceive d = .message m ∧ m.type = MessageType.ready.code

structure InStep (b : Broker) (c : ConnId) (x : Participant) (ch : Channel) : Prop where
  hangup : ch.peerClosed = true → x.pc = .ended
  /-- A `READY` on its way is next, and finds the generation of its sender. -/
  ready_first : ∀ d rest m, ch.toBroker = d :: rest → IsReady d m → ∃ p, Building b c p m.mappingSize
  ready_alone : ∀ d ∈ ch.toBroker.tail, ∀ m, ¬ IsReady d m
  stage : Stage b c x ch x.pc

section Messages

variable {m m' : MessageV1} {type : MessageType}

theorem IsReady.of_encode (hframed : m.framed = true) (h : IsReady m.encode m') :
    m' = m ∧ m.type = MessageType.ready.code := by
  obtain ⟨hm, htype⟩ := h
  rw [brokerReceive_encode hframed] at hm
  cases hm
  exact ⟨rfl, htype⟩

theorem not_ready_of_type (hframed : m.framed = true) (htype : m.type = type.code)
    (hne : type ≠ .ready) : ¬ IsReady m.encode m' := by
  intro h
  exact hne (MessageType.code_injective (htype.symm.trans (h.of_encode hframed).2))

theorem acquire_ne_ready : MessageType.acquire ≠ .ready := by decide

end Messages

theorem inStep_start (b : Broker) (c : ConnId) : InStep b c .start .fresh where
  hangup := by simp [Channel.fresh]
  ready_first := by simp [Channel.fresh]
  ready_alone := by simp [Channel.fresh]
  stage := .unasked (.inl rfl) rfl rfl

section Acts

variable {b : Broker} {c : ConnId} {x x' : Participant} {ch ch' : Channel} {m : MessageV1}
  {config : Config} {happened : List Happening}

/-- A push of a message that is not `READY`. -/
theorem InStep.push_other (h : InStep b c x ch) (hm : ∀ m', ¬ IsReady m.encode m') :
    (∀ d rest m', (ch.push m).toBroker = d :: rest → IsReady d m' →
        ∃ p, Building b c p m'.mappingSize) ∧
      ∀ d ∈ (ch.push m).toBroker.tail, ∀ m', ¬ IsReady d m' := by
  have hfirst := h.ready_first
  have halone := h.ready_alone
  rw [Channel.push_toBroker]
  cases hq : ch.toBroker with
  | nil =>
      constructor
      · intro d rest m' heq hready
        cases heq
        exact absurd hready (hm m')
      · exact fun d hd => absurd hd List.not_mem_nil
  | cons d₀ rest₀ =>
      rw [hq] at hfirst halone
      constructor
      · intro d rest m' heq hready
        cases heq
        exact hfirst d₀ rest₀ m' rfl hready
      · intro d hd
        rcases List.mem_append.mp hd with hold | hnew
        · exact halone d hold
        · rw [List.mem_singleton.mp hnew]
          exact hm

/-- Acts keep the two ends in step. -/
theorem InStep.acted (h : InStep b c x ch) (hact : Acted config c x ch (x', ch', happened)) :
    InStep b c x' ch' := by
  have hstage := h.stage
  have hopen : x.pc ≠ .ended → ch.peerClosed = true → x'.pc = .ended :=
    fun hne hclosed => absurd (h.hangup hclosed) hne
  cases hact with
  | stayed => exact h
  | begun hpc hpc' _ =>
      refine ⟨hopen (by rw [hpc]; decide), h.ready_first, h.ready_alone, ?_⟩
      rw [hpc] at hstage
      cases hstage with
      | unasked _ hb hp => exact .unasked (.inr hpc') hb hp
      | late hlate => cases hlate
  | @asked _ path key hpc hpc' _ =>
      have hm : ∀ m', ¬ IsReady (acquireRequest key config.requestedSize).encode m' := fun m' =>
        not_ready_of_type rfl rfl acquire_ne_ready
      obtain ⟨hfirst, halone⟩ := h.push_other hm
      refine ⟨hopen (by rw [hpc]; decide), hfirst, halone, ?_⟩
      rw [hpc] at hstage
      rw [hpc']
      cases hstage with
      | unasked _ hb hp =>
          have hq : (ch.push (acquireRequest key config.requestedSize)).toBroker =
              [(acquireRequest key config.requestedSize).encode] := by
            rw [Channel.push_toBroker, hb]
            rfl
          exact .asked hq rfl rfl hp
      | late hlate => cases hlate
  | @obtained _ packet rest acquisition hpc hpc' hq hclient hcache hlock hfollows =>
      refine ⟨hopen (by rw [hpc]; decide), h.ready_first, h.ready_alone, ?_⟩
      rw [hpc] at hstage
      rw [hpc']
      cases hstage with
      | unasked hwrong => rcases hwrong with hw | hw <;> cases hw
      | late hlate => cases hlate
      | asked _ _ _ hnone =>
          rw [hq] at hnone
          cases hnone
      | answered hb hreply =>
          rcases hreply with hnone | ⟨packet', hone, hcreate⟩
          · rw [hq] at hnone
            cases hnone
          · rw [hq] at hone
            cases hone
            refine .running hb rfl fun hcreator => ?_
            rcases hfollows.kind with ⟨-, -, htype⟩ | hattach
            · obtain ⟨p, hattached, hbuilding⟩ := hcreate htype
              obtain ⟨cache, lock, hpair, hc, hl⟩ := hfollows.objects
              rw [hattached] at hpair
              cases hpair
              refine ⟨p, ⟨hcache.symm.trans hc, hlock.symm.trans hl⟩, ?_⟩
              rw [← hclient, hfollows.mappingSize, ← hfollows.requested]
              exact hbuilding
            · rw [hclient, hcreator] at hattach
              cases hattach.2.1
  | @offered _ g hpc hpc' hclient hfds haccepted =>
      rw [hpc] at hstage
      cases hstage with
      | unasked hwrong => rcases hwrong with hw | hw <;> cases hw
      | late hlate => cases hlate
      | running hb hp howns =>
          obtain ⟨p, ⟨hcache, hlock⟩, hbuilding⟩ := howns (publishRefused_eq_false haccepted).1
          have hq : (ch.push (readyRequest x.client g)).toBroker =
              [(readyRequest x.client g).encode] := by
            rw [Channel.push_toBroker, hb]
            rfl
          refine ⟨hopen (by rw [hpc]; decide), ?_, ?_, ?_⟩
          · intro d rest m heq hready
            rw [hq] at heq
            cases heq
            obtain ⟨rfl, -⟩ := hready.of_encode rfl
            exact ⟨p, hbuilding⟩
          · rw [hq]
            exact fun d hd => absurd hd List.not_mem_nil
          · rw [hpc']
            refine .offered (p := p) ?_ hp (hclient ▸ haccepted) ⟨?_, ?_⟩ ?_
            · rw [hclient]
              exact hq
            · rw [hfds, hclient]
              exact hcache
            · rw [hfds, hclient]
              exact hlock
            · rw [hclient]
              exact hbuilding
  | confirmed hpc hlate =>
      exact ⟨hopen (by rw [hpc]; exact ParticipantPc.noConfusion), h.ready_first, h.ready_alone,
        .late hlate⟩
  | @notified _ type _ hne hlate htype =>
      have hm : ∀ m', ¬ IsReady (brokerMessageInit type).encode m' := fun m' =>
        not_ready_of_type rfl rfl (show type ≠ .ready by rcases htype with rfl | rfl <;> decide)
      obtain ⟨hfirst, halone⟩ := h.push_other hm
      exact ⟨hopen hne, hfirst, halone, .late hlate⟩
  | silent hlate hend hb _ hclosed _ =>
      refine ⟨?_, ?_, ?_, .late hlate⟩
      · intro htrue
        rcases hclosed with heq | hended
        · rw [heq] at htrue
          exact hend (h.hangup htrue)
        · exact hended
      · rw [hb]
        exact h.ready_first
      · rw [hb]
        exact h.ready_alone

end Acts

section Broker

variable {b : Broker} {i : Input} {c : ConnId} {x : Participant} {ch ch' : Channel}

theorem Committed.step (hb : Broker.Reachable b) {p : Nat} {size base offset : UInt64}
    (h : Committed b p size base offset) (i : Input) : Committed (b.step i) p size base offset := by
  rcases h with hreturned | ⟨key, hphase⟩
  · exact .inl (Broker.returned_kept hreturned i)
  · rcases hb.published_kept (i := i) hphase with hreturned | hkept
    · exact .inl hreturned
    · exact .inr ⟨key, hkept.trans hphase⟩

/-- A step that leaves the connection alone leaves its generation alone. -/
theorem Building.step (hb : Broker.Reachable b)
    (hkept : Ledger.Kept b.ledger c (b.newEvents (b.step i)) (b.step i).ledger) {p : Nat}
    {size : UInt64} (h : Building b c p size) : Building (b.step i) c p size := by
  rw [Building, hb.log_step i, List.mem_append]
  rcases h with hclosed | ⟨key, hphase⟩
  · exact .inl (.inl hclosed)
  · rcases hkept p size key hphase with heq | hclosed
    · exact .inr ⟨key, heq.trans hphase⟩
    · exact .inl (.inr hclosed)

theorem Stage.mono {b' : Broker} {pc : ParticipantPc} (h : Stage b c x ch pc)
    (hbuilding : ∀ p size, Building b c p size → Building b' c p size)
    (hcommitted : ∀ p size base offset, Committed b p size base offset →
      Committed b' p size base offset)
    (htoBroker : ch'.toBroker = ch.toBroker) (htoPeer : ch'.toPeer = ch.toPeer) :
    Stage b' c x ch' pc := by
  cases h with
  | unasked hpc hb hp =>
      rw [← htoBroker] at hb
      rw [← htoPeer] at hp
      exact .unasked hpc hb hp
  | asked hb hframed htype hp =>
      rw [← htoBroker] at hb
      rw [← htoPeer] at hp
      exact .asked hb hframed htype hp
  | answered hb hreply =>
      rw [← htoBroker] at hb
      rw [← htoPeer] at hreply
      refine .answered hb (hreply.imp id ?_)
      rintro ⟨packet, hone, hcreate⟩
      refine ⟨packet, hone, fun htype => ?_⟩
      obtain ⟨p, hattached, hbuild⟩ := hcreate htype
      exact ⟨p, hattached, hbuilding _ _ hbuild⟩
  | running hb hp howns =>
      rw [← htoBroker] at hb
      rw [← htoPeer] at hp
      refine .running hb hp fun hcreator => ?_
      obtain ⟨p, hown, hbuild⟩ := howns hcreator
      exact ⟨p, hown, hbuilding _ _ hbuild⟩
  | offered hb hp haccepted hown hbuild =>
      rw [← htoBroker] at hb
      rw [← htoPeer] at hp
      exact .offered hb hp haccepted hown (hbuilding _ _ hbuild)
  | replied hb hown hreply =>
      rw [← htoBroker] at hb
      rw [← htoPeer] at hreply
      refine .replied hb hown (hreply.imp id ?_)
      rintro ⟨packet, hone, hack⟩
      exact ⟨packet, hone, fun htype => hcommitted _ _ _ _ (hack htype)⟩
  | late hlate => exact .late hlate

/-- `READY` from a publication that was not refused fits the generation of its sender. -/
theorem accepts_readyRequest {client : BrokerClient} {g : UInt64} {p : Nat} {key : KeyBuffer}
    (h : publishRefused client g = false) :
    (Phase.building c p client.mappingSize key).Accepts c (readyRequest client g) := by
  obtain ⟨-, hmapping, -, hoffset⟩ := publishRefused_eq_false h
  exact ⟨rfl, rfl, hmapping, hoffset⟩

/-- The step in which the broker takes `d` from the process at this stage. -/
theorem Stage.active {pc : ParticipantPc} (h : Stage b c x ch pc)
    {d : List UInt8} {served : List Event} {ph : Phase} {next : Nat} {keep : Bool}
    (hopen : OpenConn b.kernel.log c)
    (hserved : Served b.ledger.phase b.ledger.next c served ph next keep)
    (hmem : .received c d ∈ served) (htoBroker : ch.toBroker = d :: ch'.toBroker)
    (htoPeer : ch'.toPeer = ch.toPeer ++ sentTo c served)
    (hphase : (b.step i).ledger.phase = ph ∨ (b.step i).ledger.phase = ph.leave c ∧
      Event.closed (.conn c) ∈ (b.step i).kernel.log) :
    Stage (b.step i) c x ch' pc := by
  cases h with
  | unasked _ hnone | answered hnone | running hnone | replied hnone =>
      rw [htoBroker] at hnone
      cases hnone
  | late hlate => exact .late hlate
  | asked hone hframed htype hp =>
      rw [htoBroker] at hone
      obtain ⟨rfl, hrest⟩ := List.cons.inj hone
      rw [hp, List.nil_append] at htoPeer
      refine .answered hrest ?_
      rw [htoPeer]
      rcases hserved.acquire_reply hmem (brokerReceive_encode hframed) htype with
        hnone | ⟨packet, hpacket, hcreate⟩
      · exact .inl hnone
      · refine .inr ⟨packet, hpacket, fun hctype => ?_⟩
        obtain ⟨p, key, hattached, hph⟩ := hcreate hctype
        refine ⟨p, hattached, ?_⟩
        rcases hphase with heq | ⟨-, hclosed⟩
        · exact .inr ⟨key, heq.trans hph⟩
        · exact .inl hclosed
  | @offered g p hone hp haccepted hown hbuild =>
      rw [htoBroker] at hone
      obtain ⟨rfl, hrest⟩ := List.cons.inj hone
      rw [hp, List.nil_append] at htoPeer
      obtain ⟨key, hbuilding⟩ := hbuild.resolve_left hopen.2
      rw [hbuilding] at hserved
      have hframed : (readyRequest x.client g).framed = true := rfl
      refine .replied hrest hown ?_
      rw [htoPeer]
      rcases hserved.ready_reply hmem (brokerReceive_encode hframed) rfl
        (accepts_readyRequest haccepted) with ⟨hevents, -, -⟩ | ⟨hevents, hph, -⟩
      · left
        rw [hevents]
        exact sentTo_exchange c _ (brokerMessageInit .ack) [] false
      · refine .inr ⟨⟨brokerMessageInit .ack, []⟩, ?_, fun _ => .inr ⟨key, ?_⟩⟩
        · rw [hevents]
          exact sentTo_exchange c _ (brokerMessageInit .ack) [] true
        rcases hphase with heq | ⟨heq, -⟩
        · rw [heq, hph]
          rfl
        · rw [heq, hph]
          rfl

/-- Steps of the broker keep the two ends in step. -/
theorem InStep.broker (hb : Broker.Reachable b) (h : InStep b c x ch)
    (habsorbed : Absorbed c (b.newEvents (b.step i)) ch ch') : InStep (b.step i) c x ch' := by
  have hlog := hb.log_step i
  have hhangup : ch'.peerClosed = true → x.pc = .ended := by
    rw [habsorbed.peerClosed]
    exact h.hangup
  cases hb.view i c with
  | apart htaken hsent hkept =>
      have hdrain := habsorbed.toBroker
      rw [htaken] at hdrain
      have htoBroker := hdrain.of_nil
      have htoPeer : ch'.toPeer = ch.toPeer := by
        rw [habsorbed.toPeer, hsent, List.append_nil]
      refine ⟨hhangup, ?_, by rw [htoBroker]; exact h.ready_alone, ?_⟩
      · intro d rest m heq hready
        rw [htoBroker] at heq
        obtain ⟨p, hbuild⟩ := h.ready_first d rest m heq hready
        exact ⟨p, hbuild.step hb hkept⟩
      · exact h.stage.mono (fun _ _ hbuild => hbuild.step hb hkept)
          (fun _ _ _ _ hcommit => hcommit.step hb i) htoBroker htoPeer
  | active d hopen hserved hmem htaken hsent _ _ hphase =>
      have hdrain := habsorbed.toBroker
      rw [htaken] at hdrain
      rcases hdrain.single with hq | ⟨hq, hq', -, hclosed⟩
      · have htail : ∀ d' ∈ ch'.toBroker, ∀ m, ¬ IsReady d' m := by
          have halone := h.ready_alone
          rwa [hq] at halone
        refine ⟨hhangup, ?_, fun d' hd' => htail d' (List.mem_of_mem_tail hd'), ?_⟩
        · intro d' rest m heq hready
          exact absurd hready (htail d' (by rw [heq]; exact List.mem_cons_self) m)
        · refine h.stage.active hopen hserved hmem hq (hsent ▸ habsorbed.toPeer)
            (hphase.imp And.right fun hleft => ⟨hleft.1, ?_⟩)
          rw [hlog]
          exact List.mem_append_right _ hleft.2
      · -- the peer has closed, so the process is past everything
        refine ⟨hhangup, ?_, ?_, ?_⟩
        · intro d' rest m heq
          rw [hq'] at heq
          cases heq
        · rw [hq']
          exact fun d' hd' => absurd hd' List.not_mem_nil
        · rw [h.hangup hclosed]
          exact .late rfl

end Broker

namespace Deployment

variable {config : ConnId → Config} {s t : Deployment}

theorem Reachable.inStep (h : Reachable config s) (c : ConnId) :
    InStep s.broker c (s.participants c) (s.channels c) := by
  refine Execution.Reachable.invariant_with
    (I := fun s : Deployment => InStep s.broker c (s.participants c) (s.channels c)) ?_ ?_ h
  · rintro s ⟨maxClients, listenerFd, rfl⟩
    exact inStep_start _ c
  · intro s label t hs hin hstep
    cases label with
    | broker i =>
        obtain ⟨hbroker, hparticipants, -, habsorb⟩ := stepBroker_eq_some hstep
        rw [hbroker, hparticipants]
        exact hin.broker (Reachable.broker hs) (absorbed habsorb c)
    | participant c' act =>
        cases hstep
        obtain ⟨happened, hact⟩ := stepParticipant_spec config s c' act
        rw [hact.broker]
        by_cases heq : c = c'
        · subst heq
          exact hin.acted hact.acted
        · rw [(hact.others c heq).1, (hact.others c heq).2]
          exact hin

end Deployment

end Hyperglyph
