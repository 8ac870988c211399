import Hyperglyph.Broker.Admission
import Hyperglyph.Deployment.Correspondence

/-! Both ends of a connection look at each other before they speak: the broker at the peer it
accepted, the client at the peer and at the socket it connected to. -/
namespace Hyperglyph

section Connecting

variable {p : Process} {client : BrokerClient} {c : ConnId} {effectiveUid : Nat}
  {socketPath cacheKey : List UInt8} {a : ConnectAnswers} {config : Config} {x x' : Participant}
  {ch ch' : Channel} {act : Act} {happened : List Happening} {m : MessageV1}

theorem peerTrusted_of_connected
    (h : ¬ (brokerConnect p c effectiveUid socketPath a).2 < 0) :
    peerTrusted effectiveUid a = true := by
  unfold brokerConnect at h
  dsimp only at h
  split_ifs at h with hpath hsocket hrefused
  · exact absurd (by simp) h
  · exact absurd (by simp) h
  · exact absurd (by simp) h
  · simp only [not_or, Bool.not_eq_true', Bool.not_eq_false] at hrefused
    exact hrefused.2.2.2

theorem acquireConnect_trusted
    (h : (acquireConnect p client c effectiveUid socketPath cacheKey a).2.2 = none) :
    peerTrusted effectiveUid a = true := by
  unfold acquireConnect at h
  dsimp only at h
  split at h
  · cases h
  · have hconnected : ¬ (brokerConnect p c effectiveUid socketPath a).2 < 0 := by
      intro hfailed
      simp [hfailed] at h
    exact peerTrusted_of_connected hconnected

/-- A process leaves its first state through a connection it has looked at, or for good. -/
theorem Participant.act_idle (hpc : x.pc = .idle) :
    (x.act config c ch act).1.pc = .idle ∨ (x.act config c ch act).1.pc = .ended ∨
      ∃ a, act = .createSegments a ∧
        peerTrusted config.environment.effectiveUid a = true := by
  cases act with
  | createSegments a =>
      simp only [Participant.act, hpc, Participant.createSegments]
      split
      · exact .inr (.inl rfl)
      · next path key _ =>
          cases hconnect : acquireConnect x.process x.client c config.environment.effectiveUid path
              key a with
          | mk process rest =>
              obtain ⟨client, text⟩ := rest
              cases text with
              | some text => exact .inr (.inl rfl)
              | none =>
                  refine .inr (.inr ⟨a, rfl, ?_⟩)
                  apply acquireConnect_trusted
                  rw [hconnect]
  | crash => exact .inr (.inl rfl)
  | sendAcquire | receiveAllocation | startupComplete | receivePublication | startupAborted
  | sendAbort | receiveAbort | detach | shutdown | receiveDetach =>
      simp only [Participant.act, hpc]
      exact .inl hpc

/-- A process that sends is connected. -/
theorem Acted.sends (h : Acted config c x ch (x', ch', happened))
    (hmem : .sent c m ∈ happened) : x.pc ≠ .idle ∧ x.pc ≠ .ended := by
  cases h with
  | stayed | begun => cases hmem
  | asked hpc | offered hpc =>
      rw [hpc]
      exact ⟨ParticipantPc.noConfusion, ParticipantPc.noConfusion⟩
  | obtained | confirmed => simp at hmem
  | notified hpc hne =>
      refine ⟨?_, hne⟩
      intro hidle
      rw [hidle] at hpc
      rcases hpc with hpc | hpc <;> cases hpc
  | silent _ _ _ _ _ hidle => exact (hidle _ hmem).elim

end Connecting

namespace Deployment

variable {config : ConnId → Config} {s₀ s t : Deployment} {c : ConnId} {labels : List Label}
  {maxClients listenerFd : Nat}

/-- What the broker of a deployment was given. -/
def brokerInputs (labels : List Label) : List Input :=
  labels.filterMap fun
    | .broker i => some i
    | .participant _ _ => none

theorem run_brokerInputs (h : Execution.Run (Step config) s labels t) :
    Execution.Run Broker.Step s.broker (brokerInputs labels) t.broker := by
  induction h with
  | start => exact .start
  | @next labels t label u _ hstep ih =>
      rw [brokerInputs, List.filterMap_append]
      cases label with
      | broker i => exact ih.next (stepBroker_eq_some hstep).1
      | participant c act =>
          cases hstep
          rw [List.filterMap_cons_none rfl, List.filterMap_nil, List.append_nil]
          exact ih

/-- In this run `c` connected, and its peer and the socket have the user of the process. -/
def Trusted (config : ConnId → Config) (s₀ : Deployment) (labels : List Label) (c : ConnId) : Prop :=
  ∃ before a after t, labels = before ++ .participant c (.createSegments a) :: after ∧
    Execution.Run (Step config) s₀ before t ∧ (t.participants c).pc = .idle ∧
      peerTrusted (config c).environment.effectiveUid a = true

theorem Trusted.extend (h : Trusted config s₀ labels c) (more : List Label) :
    Trusted config s₀ (labels ++ more) c := by
  obtain ⟨before, a, after, t, rfl, hrest⟩ := h
  exact ⟨before, a, after ++ more, t, by simp, hrest⟩

/-- Who is connected has looked at its peer, and so has who sent something. -/
structure Wary (config : ConnId → Config) (s₀ : Deployment) (labels : List Label) (s : Deployment) :
    Prop where
  connected : ∀ c, (s.participants c).pc = .idle ∨ (s.participants c).pc = .ended ∨
    Trusted config s₀ labels c
  sent : ∀ c m, .sent c m ∈ s.history → Trusted config s₀ labels c

theorem Wary.broker (h : Wary config s₀ labels s) {i : Input} (hstep : s.stepBroker i = some t) :
    Wary config s₀ (labels ++ [.broker i]) t := by
  obtain ⟨-, hparticipants, hhistory, -⟩ := stepBroker_eq_some hstep
  constructor
  · intro c
    rw [hparticipants]
    exact (h.connected c).imp_right (Or.imp_right fun htrusted => htrusted.extend _)
  · intro c m hmem
    rw [hhistory] at hmem
    exact (h.sent c m hmem).extend _

theorem Wary.participant (h : Wary config s₀ labels s) (hrun : Execution.Run (Step config) s₀ labels s)
    (act : Act) : Wary config s₀ (labels ++ [.participant c act]) (s.stepParticipant config c act) := by
  obtain ⟨happened, hact⟩ := stepParticipant_spec config s c act
  have hparticipant : (s.stepParticipant config c act).participants c =
      ((s.participants c).act (config c) c (s.channels c) act).1 := Function.update_self ..
  constructor
  · intro c'
    by_cases heq : c' = c
    · subst heq
      rcases h.connected c' with hidle | hended | htrusted
      · rw [hparticipant]
        refine (Participant.act_idle hidle).imp_right (Or.imp_right ?_)
        rintro ⟨a, rfl, htrusts⟩
        exact ⟨labels, a, [], s, rfl, hrun, hidle, htrusts⟩
      · exact .inr (.inl (hact.acted.mute hended).1)
      · exact .inr (.inr (htrusted.extend _))
    · rw [(hact.others c' heq).2]
      exact (h.connected c').imp_right (Or.imp_right fun htrusted => htrusted.extend _)
  · intro c' m hmem
    rw [hact.history] at hmem
    rcases List.mem_append.mp hmem with hold | hnew
    · exact (h.sent c' m hold).extend _
    · obtain rfl : c' = c := hact.acted.own _ hnew
      obtain ⟨hidle, hended⟩ := hact.acted.sends hnew
      exact (((h.connected c').resolve_left hidle).resolve_left hended).extend _

theorem run_wary (h : Execution.Run (Step config) (start maxClients listenerFd) labels s) :
    Wary config (start maxClients listenerFd) labels s := by
  induction h with
  | start => exact ⟨fun c => .inl rfl, fun c m hmem => by cases hmem⟩
  | @next labels t label u hrun hstep ih =>
      cases label with
      | broker i => exact ih.broker hstep
      | participant c act =>
          cases hstep
          exact ih.participant hrun act

/-- The broker and the process have each seen the other's user. -/
def BothVetted (config : ConnId → Config) (maxClients listenerFd : Nat) (labels : List Label)
    (c : ConnId) : Prop :=
  Trusted config (start maxClients listenerFd) labels c ∧
    Broker.Vetted (Broker.start maxClients listenerFd) (brokerInputs labels) c

structure MutuallyAuthenticated (config : ConnId → Config) (maxClients listenerFd : Nat)
    (labels : List Label) (s : Deployment) : Prop where
  /-- No request is sent to a broker of another user. -/
  asked : ∀ c m, .sent c m ∈ s.history → Trusted config (start maxClients listenerFd) labels c
  /-- What the broker reads it reads from a process of its user that knows it. -/
  heard : ∀ c d, Event.received c d ∈ s.log → d ≠ [] →
    BothVetted config maxClients listenerFd labels c
  answered : ∀ c m attached, Event.sent c m attached ∈ s.log ∨ Event.unsent c m attached ∈ s.log →
    BothVetted config maxClients listenerFd labels c
  /-- So is who shares a cache. -/
  acquired : ∀ c acquisition, .acquired c acquisition ∈ s.history →
    acquisition.status ≠ .allocFailure → BothVetted config maxClients listenerFd labels c

/-- A datagram the broker took is one that was sent. -/
theorem Delivered.request_of_taken (h : s.Delivered) {d : List UInt8}
    (hreceived : Event.received c d ∈ s.log) (hne : d ≠ []) :
    ∃ m, .sent c m ∈ s.history ∧ m.encode = d := by
  have htaken : d ∈ (requestsOf c s.history).map MessageV1.encode := by
    rw [h.queued c]
    exact List.mem_append_left _
      (List.mem_filter.mpr ⟨mem_takenFrom.mpr hreceived, decide_eq_true hne⟩)
  obtain ⟨m, hm, rfl⟩ := List.mem_map.mp htaken
  exact ⟨m, mem_requestsOf.mp hm, rfl⟩

theorem mutual_authentication
    (h : Execution.Run (Step config) (start maxClients listenerFd) labels s) :
    MutuallyAuthenticated config maxClients listenerFd labels s := by
  have hs : Reachable config s := (reachable_start maxClients listenerFd).extend h
  have hvetted := Broker.run_vetted (run_brokerInputs h)
  have hheard : ∀ c d, Event.received c d ∈ s.log → d ≠ [] →
      BothVetted config maxClients listenerFd labels c := by
    intro c d hreceived hne
    obtain ⟨m, hsent, -⟩ := hs.delivered.request_of_taken hreceived hne
    exact ⟨(run_wary h).sent c m hsent, hvetted.heard c d hreceived⟩
  have hreplied : ∀ {c m attached} (sent : Bool), replyEvent c m attached sent ∈ s.log →
      BothVetted config maxClients listenerFd labels c := by
    intro c m attached sent hmem
    obtain ⟨before, after, hlog⟩ := List.append_of_mem hmem
    obtain ⟨earlier, d, m', quiet, rfl, -, hm, -⟩ := hs.broker.asked hlog
    refine hheard c d (by simp [hlog]) ?_
    rintro rfl
    exact brokerReceive_nil hm
  refine ⟨(run_wary h).sent, hheard, ?_, ?_⟩
  · rintro c m attached (hsent | hunsent)
    · exact hreplied true hsent
    · exact hreplied false hunsent
  · intro c acquisition hmem hsuccess
    obtain ⟨packet, hsent, -⟩ := (hs.provenance.acquisitions c acquisition hmem).resolve_left hsuccess
    exact hreplied true hsent

theorem mutual_authentication_sharing : ∃ s, (start 0 3).run pageConfig sharing = some s ∧
    .acquired 1 (pageAcquisition .successfullyReattached false 65552) ∈ s.history ∧
      MutuallyAuthenticated pageConfig 0 3 sharing s := by
  obtain ⟨s, hrun, hhistory⟩ := Option.map_eq_some_iff.mp sharing_history
  refine ⟨s, hrun, ?_, mutual_authentication (run_of_run hrun)⟩
  rw [hhistory]
  decide

end Deployment

end Hyperglyph
