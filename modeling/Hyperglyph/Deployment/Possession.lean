import Hyperglyph.Deployment.Agreement
import Hyperglyph.Client.Acquisition
import Hyperglyph.Deployment.Dialogue

/-! A process between its acquisition and its end keeps the descriptors it was given: nothing it
does closes one of them before the last, and nothing that is still on its way brings more. -/
namespace Hyperglyph

/-- Between the acquisition and the end of the client. -/
def ParticipantPc.up : ParticipantPc → Bool
  | .running | .awaitPublication _ | .abortDue | .awaitAbort | .settled | .awaitDetach => true
  | _ => false

/-! ### What closes a descriptor -/

section Closing

variable {p p' : Process} {client : BrokerClient}

/-- Nothing was opened or closed. -/
structure Process.Unmoved (p p' : Process) : Prop where
  fds : p'.fds = p.fds
  closed : p'.closed = p.closed

theorem Process.Unmoved.refl (p : Process) : p.Unmoved p := ⟨rfl, rfl⟩

theorem Process.Unmoved.trans {p'' : Process} (h : p.Unmoved p') (h' : p'.Unmoved p'') :
    p.Unmoved p'' :=
  ⟨h'.fds.trans h.fds, h'.closed.trans h.closed⟩

theorem Process.unmoved_emit (p : Process) {events : List ProcessEvent}
    (h : events.filterMap ProcessEvent.closed? = []) : p.Unmoved (p.emit events) :=
  ⟨rfl, by rw [closed_emit, h, List.append_nil]⟩

theorem Process.unmoved_send (p : Process) (fd : Fd) (answer : Except Errno Unit) :
    p.Unmoved (p.send fd answer).1 := by
  unfold send
  split
  · exact .refl p
  · exact p.unmoved_emit rfl

theorem Process.unmoved_munmap (p : Process) (address size : UInt64) (answer : Bool) :
    p.Unmoved (p.munmap address size answer).1 := by
  unfold munmap
  split
  · exact p.unmoved_emit rfl
  · exact .refl p

/-- A message without descriptors moves none. -/
theorem unmoved_clientReceiveMessage {a : Except Errno Reception} (fd : Fd) (capacity : Nat)
    (hbare : ∀ r, a = .ok r → r.control = []) :
    p.Unmoved (clientReceiveMessage p fd capacity a).1 := by
  have hreceived : p.Unmoved (p.recvmsg fd a).1 ∧
      ∀ r, (p.recvmsg fd a).2 = .ok r → r.control = [] := by
    unfold Process.recvmsg
    split
    · cases a with
      | error e => exact ⟨.refl p, fun r hr => by cases hr⟩
      | ok r =>
          have hcontrol := hbare r rfl
          have hnone : r.installed = [] := by rw [Reception.installed, hcontrol]; rfl
          simp only [hnone, installAll, List.map_nil]
          refine ⟨p.unmoved_emit rfl, fun r' hr' => ?_⟩
          cases hr'
          exact hcontrol
    · exact ⟨p.unmoved_emit rfl, fun r hr => by cases hr⟩
  obtain ⟨hunmoved, hcontrol⟩ := hreceived
  unfold clientReceiveMessage
  generalize p.recvmsg fd a = received at hunmoved hcontrol ⊢
  obtain ⟨p', answer⟩ := received
  cases answer with
  | error e => exact hunmoved
  | ok r =>
      have hnone : collectFds p' capacity [] r.control = (p', some []) := by
        rw [hcontrol r rfl]
        rfl
      simp only [hnone]
      split
      · exact hunmoved
      · exact hunmoved

theorem unmoved_receiveAck {reply : Except Errno Reception} (p : Process) (client : BrokerClient)
    (hbare : ∀ r, reply = .ok r → r.control = []) : p.Unmoved (receiveAck p client reply).1 := by
  have hunmoved := unmoved_clientReceiveMessage (p := p) client.socketFd 0 hbare
  unfold receiveAck
  generalize clientReceiveMessage p client.socketFd 0 reply = received at hunmoved ⊢
  obtain ⟨p', answer⟩ := received
  cases answer <;> exact hunmoved

/-- A queue of bare packets yields bare receptions. -/
theorem Channel.receive_bare {ch : Channel} (hbare : ∀ packet ∈ ch.toPeer, packet.attached = [])
    (delivery : Delivery) : ∀ r, (ch.receive delivery).1 = .ok r → r.control = [] := by
  intro r hr
  cases delivery with
  | failed e => cases hr
  | arrived numbers =>
      simp only [Channel.receive] at hr
      split at hr
      · next packet rest hq =>
          cases hr
          have hnone := hbare packet (by rw [hq]; exact List.mem_cons_self)
          simp [Packet.reception, hnone]
      · split at hr
        · cases hr
          rfl
        · cases hr

theorem closed_closeSlot (p : Process) (fd : Fd) :
    (closeSlot p fd).fds = p.fds.remove fd ∧
      (closeSlot p fd).closed = p.closed ++ (p.fds.get fd).toList := by
  unfold closeSlot
  split
  · refine ⟨Process.close_fds p fd, ?_⟩
    unfold Process.close
    split
    · next o ho =>
        rw [ho]
        exact p.closed_emit [.closed o]
    · next hnone =>
        rw [hnone]
        exact p.closed_emit [.badUse fd]
  · next hneg =>
      have hnone := DescriptorTable.get_neg (t := p.fds) (Int.not_le.mp hneg)
      rw [hnone, DescriptorTable.remove_of_closed hnone]
      exact ⟨rfl, (List.append_nil _).symm⟩

/-- The end of the client closes both memfds. -/
theorem mem_closed_shutdownRest {cache lock : Object} (unmapped : Bool)
    (hcache : p.fds.get client.cacheFd = some cache) (hlock : p.fds.get client.lockFd = some lock)
    (hne : cache ≠ lock) :
    lock ∈ (shutdownRest p client unmapped).1.closed.drop p.closed.length := by
  have hfd : client.lockFd ≠ client.cacheFd := by
    intro heq
    rw [heq, hcache] at hlock
    exact hne (Option.some_inj.mp hlock)
  have hbefore : ∃ p₁, p.Unmoved p₁ ∧
      (shutdownRest p client unmapped).1 = (closeDescriptors p₁ client).1 := by
    unfold shutdownRest
    dsimp only
    have hunmapped : p.Unmoved (if client.mapping ≠ 0 ∧ client.mappingSize ≠ 0 then
        (p.munmap client.mapping client.mappingSize unmapped).1 else p) := by
      split
      · exact p.unmoved_munmap _ _ _
      · exact .refl p
    refine ⟨_, ?_, rfl⟩
    split
    · exact hunmapped.trans (Process.unmoved_emit _ rfl)
    · exact hunmapped
  obtain ⟨p₁, hunmoved, heq⟩ := hbefore
  rw [heq, closeDescriptors_eq, (closed_closeSlot _ client.socketFd).2,
    (closed_closeSlot _ client.lockFd).2, (closed_closeSlot p₁ client.cacheFd).2,
    (closed_closeSlot p₁ client.cacheFd).1, DescriptorTable.get_remove_of_ne hfd, hunmoved.fds,
    hunmoved.closed, hlock, hcache]
  simp

end Closing

/-! ### What a process keeps -/

namespace Participant

/-- The descriptors of the client are what they were. -/
structure Keeps (x x' : Participant) : Prop where
  unmoved : x.process.Unmoved x'.process
  cacheFd : x'.client.cacheFd = x.client.cacheFd
  lockFd : x'.client.lockFd = x.client.lockFd

variable {config : Config} {c : ConnId} {x x' y : Participant} {ch : Channel}

theorem Keeps.refl (x : Participant) : x.Keeps x := ⟨.refl _, rfl, rfl⟩

theorem Keeps.owns (h : x.Keeps x') {p : Nat} (howns : x.Owns p) : x'.Owns p where
  cache := by
    rw [h.unmoved.fds, h.cacheFd]
    exact howns.cache
  lock := by
    rw [h.unmoved.fds, h.lockFd]
    exact howns.lock

/-- An act of a process that is up leaves the descriptors alone, or is the end of the client. -/
inductive Continued (x : Participant) : Participant → Prop
  | up {x' : Participant} : x'.pc.up = true → x.Keeps x' → Continued x x'
  | ended {x' y : Participant} (unmapped : Bool) : x.Keeps y → x'.pc = .ended →
      x'.process = (shutdownRest y.process y.client unmapped).1 → Continued x x'

theorem Continued.stay (hup : x.pc.up = true) : x.Continued x := .up hup (.refl x)

theorem continued_notify {type : MessageType} {answer : Except Errno Unit}
    {awaiting : ParticipantPc} {otherwise : Participant → Outcome} (hawait : awaiting.up = true)
    (hother : ∀ y, x.Keeps y → x.Continued (otherwise y).1) :
    x.Continued (x.notify c ch type answer awaiting otherwise).1 := by
  have hsent := x.process.unmoved_send x.client.socketFd answer
  unfold notify
  split
  · exact hother x (.refl x)
  · generalize x.process.send x.client.socketFd answer = sent at hsent ⊢
    obtain ⟨process, result⟩ := sent
    cases result with
    | error e => exact hother _ ⟨hsent, rfl, rfl⟩
    | ok => exact .up hawait ⟨hsent, rfl, rfl⟩

theorem continued_close {unmapped : Bool} (hkeeps : x.Keeps y) :
    x.Continued (y.close ch unmapped).1 :=
  .ended unmapped hkeeps rfl rfl

theorem continued_startupComplete {reattached : Bool} {sharedGlobals : UInt64}
    {answer : Except Errno Unit} :
    x.Continued (x.startupComplete c ch reattached sharedGlobals answer).1 := by
  have hsent := x.process.unmoved_send x.client.socketFd answer
  unfold startupComplete
  split
  · dsimp only
    split
    · exact .up rfl ⟨.refl _, rfl, rfl⟩
    · generalize x.process.send x.client.socketFd answer = sent at hsent ⊢
      obtain ⟨process, result⟩ := sent
      cases result with
      | error e => exact .up rfl ⟨hsent, rfl, rfl⟩
      | ok => exact .up rfl ⟨hsent, rfl, rfl⟩
  · exact .up rfl ⟨.refl _, rfl, rfl⟩

theorem continued_receivePublication {sharedGlobals : UInt64} {delivery : Delivery}
    (hbare : ∀ packet ∈ ch.toPeer, packet.attached = []) :
    x.Continued (x.receivePublication c ch sharedGlobals delivery).1 := by
  have hack := unmoved_receiveAck x.process x.client
    (Channel.receive_bare hbare delivery)
  unfold receivePublication
  generalize ch.receive delivery = received at hack ⊢
  obtain ⟨reply, ch'⟩ := received
  dsimp only at hack ⊢
  generalize receiveAck x.process x.client reply = acked at hack ⊢
  obtain ⟨process, acknowledged⟩ := acked
  cases acknowledged with
  | true => exact .up rfl ⟨hack, rfl, rfl⟩
  | false => exact .up rfl ⟨hack, rfl, rfl⟩

theorem keeps_detach (x : Participant) (address : UInt64) (segment : ShmSegment)
    (unmapped : Bool) :
    x.Keeps { x with
      process := (brokerClientDetach x.process x.client address segment unmapped).1
      client := (brokerClientDetach x.process x.client address segment unmapped).2.1 } := by
  have hunmapped := x.process.unmoved_munmap segment.p segment.size unmapped
  unfold brokerClientDetach
  split
  · exact .refl x
  · dsimp only
    generalize x.process.munmap segment.p segment.size unmapped = result at hunmapped ⊢
    obtain ⟨process, done⟩ := result
    cases done with
    | false => exact ⟨hunmapped, rfl, rfl⟩
    | true =>
        refine ⟨hunmapped, ?_, ?_⟩
        · dsimp only
          repeat' split
          all_goals rfl
        · dsimp only
          repeat' split
          all_goals rfl

theorem continued_act (hup : x.pc.up = true) (hbare : ∀ packet ∈ ch.toPeer, packet.attached = [])
    {act : Act} (hact : act ≠ .crash) : x.Continued (x.act config c ch act).1 := by
  cases act with
  | createSegments a =>
      simp only [Participant.act]
      split
      · next hpc =>
          rw [hpc] at hup
          cases hup
      · exact .stay hup
  | sendAcquire answer =>
      simp only [Participant.act]
      split
      · next hpc =>
          rw [hpc] at hup
          cases hup
      · exact .stay hup
  | receiveAllocation delivery a =>
      simp only [Participant.act]
      split
      · next hpc =>
          rw [hpc] at hup
          cases hup
      · exact .stay hup
  | startupComplete reattached sharedGlobals answer =>
      simp only [Participant.act]
      split
      · exact continued_startupComplete
      · exact .stay hup
  | receivePublication delivery =>
      simp only [Participant.act]
      split
      · exact continued_receivePublication hbare
      · exact .stay hup
  | startupAborted =>
      simp only [Participant.act]
      split
      · exact .up rfl ⟨.refl _, rfl, rfl⟩
      · exact .stay hup
  | sendAbort answer =>
      simp only [Participant.act]
      split
      · exact continued_notify rfl fun y hy => .up rfl ⟨hy.unmoved, hy.cacheFd, hy.lockFd⟩
      · exact .stay hup
  | receiveAbort delivery =>
      simp only [Participant.act]
      split
      · exact .up rfl ⟨unmoved_receiveAck _ _ (Channel.receive_bare hbare delivery), rfl, rfl⟩
      · exact .stay hup
  | detach address segment unmapped =>
      have hkeeps := x.keeps_detach address segment unmapped
      simp only [Participant.act]
      split
      · exact .up rfl ⟨hkeeps.unmoved, hkeeps.cacheFd, hkeeps.lockFd⟩
      · exact .up rfl ⟨hkeeps.unmoved, hkeeps.cacheFd, hkeeps.lockFd⟩
      · exact .stay hup
  | shutdown answer unmapped =>
      simp only [Participant.act]
      split
      · exact continued_notify rfl fun y hy => continued_close hy
      · exact continued_notify rfl fun y hy => continued_close hy
      · exact .stay hup
  | receiveDetach delivery unmapped =>
      simp only [Participant.act]
      split
      · exact continued_close ⟨unmoved_receiveAck _ _ (Channel.receive_bare hbare delivery), rfl, rfl⟩
      · exact .stay hup
  | crash => exact absurd rfl hact

/-- A process gets up only by an acquisition that succeeds. -/
theorem up_of_act {act : Act} (hdown : x.pc.up = false)
    (hup : (x.act config c ch act).1.pc.up = true) :
    x.pc = .awaitAllocation ∧ (x.act config c ch act).1.pc = .running := by
  cases act with
  | createSegments a =>
      simp only [Participant.act] at hup
      split at hup
      · unfold Participant.createSegments at hup
        split at hup
        · cases hup
        · dsimp only at hup
          split at hup <;> cases hup
      · cases hdown.symm.trans hup
  | sendAcquire answer =>
      simp only [Participant.act] at hup
      split at hup
      · next hpc =>
          unfold Participant.sendAcquire at hup
          split at hup
          · simp only [stay, hpc] at hup
            cases hup
          · split at hup <;> cases hup
      · cases hdown.symm.trans hup
  | receiveAllocation delivery a =>
      simp only [Participant.act] at hup ⊢
      split at hup
      · next hpc =>
          refine ⟨hpc, ?_⟩
          unfold Participant.receiveAllocation at hup ⊢
          dsimp only at hup ⊢
          split at hup
          · cases hup
          · next hsuccess =>
              rw [if_neg hsuccess]
      · cases hdown.symm.trans hup
  | startupComplete reattached sharedGlobals answer =>
      simp only [Participant.act] at hup
      split at hup
      · next hpc =>
          rw [hpc] at hdown
          cases hdown
      · cases hdown.symm.trans hup
  | receivePublication delivery =>
      simp only [Participant.act] at hup
      split at hup
      · next hpc =>
          rw [hpc] at hdown
          cases hdown
      · cases hdown.symm.trans hup
  | startupAborted | sendAbort | receiveAbort | receiveDetach =>
      simp only [Participant.act] at hup
      split at hup
      · next hpc =>
          rw [hpc] at hdown
          cases hdown
      · cases hdown.symm.trans hup
  | detach | shutdown =>
      simp only [Participant.act] at hup
      split at hup
      · next hpc =>
          rw [hpc] at hdown
          cases hdown
      · next hpc =>
          rw [hpc] at hdown
          cases hdown
      · cases hdown.symm.trans hup
  | crash => cases hup

theorem act_ended {act : Act} (h : x.pc = .ended) : (x.act config c ch act).1.pc = .ended := by
  cases act <;> simp only [Participant.act, h, stay, finish]

end Participant

namespace Deployment

variable {config : ConnId → Config} {s t : Deployment} {c : ConnId}

/-- What the process `c` was given is in its hands, and nothing else is on its way. -/
structure Possessed (s : Deployment) (c : ConnId) : Prop where
  bare : ∀ packet ∈ (s.channels c).toPeer, packet.attached = []
  nothingAsked : acquires (s.channels c).toBroker = 0
  owns : ∃ p, (s.participants c).Owns p

/-- Who has nothing to ask is given nothing. -/
theorem Possessed.broker (h : s.Possessed c) (hs : Reachable config s) {i : Input}
    (hstep : s.stepBroker i = some t) : t.Possessed c := by
  obtain ⟨-, hparticipants, -, habsorb⟩ := stepBroker_eq_some hstep
  have habsorbed := absorbed habsorb c
  obtain ⟨labels, hrun⟩ := hs.broker.step_refines i
  have hnone : shares c (s.broker.newEvents (s.broker.step i)) = 0 := by
    have hdrain := habsorbed.toBroker.acquires_eq
    have hshares := hrun.shares_le c
    rw [← Broker.newEvents_eq hrun] at hshares
    have hzero := h.nothingAsked
    omega
  refine ⟨?_, ?_, by rw [hparticipants]; exact h.owns⟩
  · intro packet hp
    rw [habsorbed.toPeer] at hp
    rcases List.mem_append.mp hp with hold | hnew
    · exact h.bare packet hold
    · have hsent := List.countP_eq_zero.mp hnone _ (mem_sentTo.mp hnew)
      cases hattached : packet.attached with
      | nil => rfl
      | cons o rest =>
          rw [hattached] at hsent
          exact absurd (by simp [isShare]) hsent
  · have hdrain := habsorbed.toBroker.acquires_eq
    have hzero := h.nothingAsked
    omega

theorem Possessed.acted (h : s.Possessed c) (hs : Reachable config s)
    (hup : (s.participants c).pc.up = true) {act : Act}
    (hup' : ((s.stepParticipant config c act).participants c).pc.up = true) :
    (s.stepParticipant config c act).Possessed c := by
  obtain ⟨happened, hact⟩ := stepParticipant_spec config s c act
  obtain ⟨-, hpeer, -⟩ := hs.provenance.acted hact.acted
  have hlate : unasked (s.participants c).pc = 0 := by
    cases hpc : (s.participants c).pc <;> first | rfl | (rw [hpc] at hup; cases hup)
  refine ⟨fun packet hp => h.bare packet (hpeer packet hp), ?_, ?_⟩
  · have hbudget := budget_acted hact.acted
    have hzero := h.nothingAsked
    omega
  · have hcrash : act ≠ .crash := by
      rintro rfl
      simp only [stepParticipant, Participant.act, Participant.finish,
        Function.update_self] at hup'
      cases hup'
    obtain ⟨p, howns⟩ := h.owns
    have hcontinued : (s.participants c).Continued
        ((s.participants c).act (config c) c (s.channels c) act).1 :=
      Participant.continued_act hup h.bare hcrash
    simp only [stepParticipant, Function.update_self] at hup' ⊢
    generalize ((s.participants c).act (config c) c (s.channels c) act).1 = x' at hcontinued hup' ⊢
    cases hcontinued with
    | up _ hkeeps => exact ⟨p, hkeeps.owns howns⟩
    | ended _ _ hend =>
        rw [hend] at hup'
        cases hup'

/-- An acquisition that succeeds leaves nothing on its way. -/
theorem Reachable.obtained (hs : Reachable config s)
    (hpc : (s.participants c).pc = .awaitAllocation) {x' : Participant} {ch' : Channel}
    {happened : List Happening}
    (hact : Acted (config c) c (s.participants c) (s.channels c) (x', ch', happened))
    (hpc' : x'.pc = .running) :
    (∀ packet ∈ ch'.toPeer, packet.attached = []) ∧ acquires ch'.toBroker = 0 ∧
      ∃ p, x'.Owns p := by
  have hstage := (hs.inStep c).stage
  rw [hpc] at hstage
  cases hact with
  | stayed =>
      rw [hpc] at hpc'
      cases hpc'
  | begun hidle => cases hpc.symm.trans hidle
  | asked hconnected => cases hpc.symm.trans hconnected
  | offered hrunning => cases hpc.symm.trans hrunning
  | confirmed hawait => cases hpc.symm.trans hawait
  | notified _ _ hlate | silent hlate =>
      rw [hpc'] at hlate
      cases hlate
  | @obtained _ packet rest acquisition _ _ hq hclient hcache hlock hfollows =>
      have howns : ∃ p, x'.Owns p := by
        obtain ⟨cache, lock, hattached, hc, hl⟩ := hfollows.objects
        have hsent := hs.provenance.replies c packet (by rw [hq]; exact List.mem_cons_self)
        rw [hattached] at hsent
        obtain ⟨p, rfl, rfl, -⟩ := hs.records.pair_of_sent hsent
        exact ⟨p, hcache.symm.trans hc, hlock.symm.trans hl⟩
      cases hstage with
      | unasked hwrong => rcases hwrong with hw | hw <;> cases hw
      | late hlate => cases hlate
      | asked _ _ _ hnone =>
          rw [hq] at hnone
          cases hnone
      | answered hb hreply =>
          rw [hq] at hreply
          rcases hreply with hnone | ⟨packet', hone, -⟩
          · cases hnone
          · obtain ⟨-, rfl⟩ := List.cons.inj hone
            refine ⟨fun packet hp => absurd hp List.not_mem_nil, ?_, howns⟩
            dsimp only
            rw [hb]
            rfl

theorem Reachable.possessed (hs : Reachable config s) (c : ConnId) :
    (s.participants c).pc.up = true → s.Possessed c := by
  refine Execution.Reachable.invariant_with
    (I := fun s : Deployment => (s.participants c).pc.up = true → s.Possessed c) ?_ ?_ hs
  · rintro s ⟨maxClients, listenerFd, rfl⟩ hup
    cases hup
  · intro s label t hs hold hstep hup
    cases label with
    | broker i =>
        obtain ⟨-, hparticipants, -⟩ := stepBroker_eq_some hstep
        rw [hparticipants] at hup
        exact (hold hup).broker hs hstep
    | participant c' act =>
        cases hstep
        obtain ⟨happened, hact⟩ := stepParticipant_spec config s c' act
        by_cases heq : c = c'
        · subst heq
          cases hbefore : (s.participants c).pc.up with
          | true => exact (hold hbefore).acted hs hbefore hup
          | false =>
              have hchange : (s.participants c).pc = .awaitAllocation ∧
                  ((s.stepParticipant config c act).participants c).pc = .running := by
                simp only [stepParticipant, Function.update_self] at hup ⊢
                exact Participant.up_of_act hbefore hup
              obtain ⟨hbare, hnone, howns⟩ := Reachable.obtained hs hchange.1 hact.acted hchange.2
              exact ⟨hbare, hnone, howns⟩
        · obtain ⟨hchannel, hparticipant⟩ := hact.others c heq
          rw [hparticipant] at hup
          obtain ⟨hbare, hnone, howns⟩ := hold hup
          refine ⟨by rwa [hchannel], by rwa [hchannel], by rwa [hparticipant]⟩

end Deployment

end Hyperglyph
