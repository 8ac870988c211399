import Hyperglyph.Deployment.Acts
import Hyperglyph.Deployment.Run

/-! Where the messages of a deployment come from: every request is one the client builds from
what it was given, every acquisition follows a reply of the broker. -/
namespace Hyperglyph

open History

/-- The messages a client sends. -/
inductive Honest (config : ConnId → Config) (history : List Happening) (c : ConnId) :
    MessageV1 → Prop
  | acquire {path key : List UInt8} : (config c).key = .ok (path, key) →
      Honest config history c (acquireRequest key (config c).requestedSize)
  | ready {acquisition : Acquisition} {sharedGlobals : UInt64} :
      InOrder history (.acquired c acquisition) (.startupComplete c sharedGlobals)
        (.sent c (readyRequest acquisition.client sharedGlobals)) →
      acquisition.status = .allocSuccess → publishRefused acquisition.client sharedGlobals = false →
      Honest config history c (readyRequest acquisition.client sharedGlobals)
  | notice {type : MessageType} : type = .abort ∨ type = .detach →
      Honest config history c (brokerMessageInit type)

theorem Honest.extend {config : ConnId → Config} {history : List Happening} {c : ConnId}
    {m : MessageV1} (h : Honest config history c m) (more : List Happening) :
    Honest config (history ++ more) c m := by
  cases h with
  | acquire hkey => exact .acquire hkey
  | ready horder hstatus haccepted => exact .ready (horder.extend more) hstatus haccepted
  | notice htype => exact .notice htype

theorem Honest.framed {config : ConnId → Config} {history : List Happening} {c : ConnId}
    {m : MessageV1} (h : Honest config history c m) : m.framed = true := by
  cases h <;> rfl

theorem brokerReceive_encode {m : MessageV1} (h : m.framed = true) :
    brokerReceive m.encode = .message m := by
  have htake : m.encode.take sizeofMessage = m.encode :=
    List.take_of_length_le (MessageV1.length_encode m).le
  have hpos : ¬ sizeofMessage = 0 := by decide
  simp only [brokerReceive, MessageV1.length_encode, Nat.min_self, hpos, if_false, htake,
    MessageV1.decode_encode, h, Bool.not_true, ne_eq, not_true_eq_false, Bool.false_eq_true, or_self]

theorem brokerReceive_nil {m : MessageV1} : brokerReceive [] ≠ .message m := by
  simp [brokerReceive]

/-- The broker's log after one step. -/
theorem Broker.Reachable.log_step {b : Broker} (h : Reachable b) (i : Input) :
    (b.step i).kernel.log = b.kernel.log ++ b.newEvents (b.step i) := by
  obtain ⟨labels, hrun⟩ := h.step_refines i
  have hlog : (b.step i).kernel.log = b.kernel.log ++ labels.flatten := hrun.log_eq
  rw [newEvents_eq hrun, hlog]

namespace Deployment

variable {config : ConnId → Config} {s t : Deployment} {c : ConnId}

abbrev log (s : Deployment) : List Event := s.broker.kernel.log

/-- A step of the process `c`, seen from each process. -/
structure ActStep (config : ConnId → Config) (s : Deployment) (c : ConnId) (t : Deployment)
    (happened : List Happening) : Prop where
  acted : Acted (config c) c (s.participants c) (s.channels c)
    (t.participants c, t.channels c, happened)
  broker : t.broker = s.broker
  history : t.history = s.history ++ happened
  others : ∀ c', c' ≠ c → t.channels c' = s.channels c' ∧ t.participants c' = s.participants c'

theorem stepParticipant_spec (config : ConnId → Config) (s : Deployment) (c : ConnId) (act : Act) :
    ∃ happened, ActStep config s c (s.stepParticipant config c act) happened := by
  refine ⟨((s.participants c).act (config c) c (s.channels c) act).2.2, ?_, rfl, rfl, ?_⟩
  · simp only [stepParticipant, Function.update_self]
    exact Participant.act_spec (config c) c (s.participants c) (s.channels c) act
  · intro c' hne
    simp only [stepParticipant, Function.update_of_ne hne, and_self]

structure Provenance (config : ConnId → Config) (s : Deployment) : Prop where
  queued : ∀ c d, d ∈ (s.channels c).toBroker → ∃ m, d = m.encode ∧ Honest config s.history c m
  taken : ∀ c d, Event.received c d ∈ s.log →
    d = [] ∨ ∃ m, d = m.encode ∧ Honest config s.history c m
  replies : ∀ c packet, packet ∈ (s.channels c).toPeer →
    Event.sent c packet.message packet.attached ∈ s.log
  acquisitions : ∀ c acquisition, .acquired c acquisition ∈ s.history →
    acquisition.status = .allocFailure ∨ ∃ packet : Packet,
      Event.sent c packet.message packet.attached ∈ s.log ∧
        acquisition.Follows (config c).requestedSize packet
  running : ∀ c, (s.participants c).pc = .running → ∃ acquisition,
    .acquired c acquisition ∈ s.history ∧ acquisition.client = (s.participants c).client ∧
      acquisition.status ≠ .allocFailure
  sent : ∀ c m, .sent c m ∈ s.history → Honest config s.history c m

theorem provenance_start (maxClients listenerFd : Nat) :
    (start maxClients listenerFd).Provenance config where
  queued := by simp [start, Channel.fresh]
  taken := by simp [start, log, Broker.start]
  replies := by simp [start, Channel.fresh]
  acquisitions := by simp [start]
  running := by simp [start, Participant.start]
  sent := by simp [start]

theorem Provenance.broker (h : s.Provenance config) (hs : Reachable config s) {i : Input}
    (hstep : s.stepBroker i = some t) : t.Provenance config := by
  obtain ⟨hbroker, hparticipants, hhistory, habsorb⟩ := stepBroker_eq_some hstep
  have hlog : t.log = s.log ++ s.broker.newEvents (s.broker.step i) := by
    rw [log, hbroker]
    exact hs.broker.log_step i
  have hchannel := absorbed habsorb
  constructor
  · intro c d hd
    rw [hhistory]
    exact h.queued c d ((hchannel c).toBroker.suffix.subset hd)
  · intro c d hd
    rw [hlog] at hd
    rw [hhistory]
    rcases List.mem_append.mp hd with hold | hnew
    · exact h.taken c d hold
    · rcases (hchannel c).toBroker.taken_mem (mem_takenFrom.mpr hnew) with hq | ⟨rfl, -⟩
      · exact .inr (h.queued c d hq)
      · exact .inl rfl
  · intro c packet hp
    rw [hlog]
    rw [(hchannel c).toPeer] at hp
    rcases List.mem_append.mp hp with hold | hnew
    · exact List.mem_append_left _ (h.replies c packet hold)
    · exact List.mem_append_right _ (mem_sentTo.mp hnew)
  · intro c acquisition hmem
    rw [hhistory] at hmem
    refine (h.acquisitions c acquisition hmem).imp id ?_
    rintro ⟨packet, hsent, hfollows⟩
    exact ⟨packet, hlog ▸ List.mem_append_left _ hsent, hfollows⟩
  · intro c hpc
    rw [hparticipants] at hpc ⊢
    rw [hhistory]
    exact h.running c hpc
  · intro c m hm
    rw [hhistory] at hm ⊢
    exact h.sent c m hm

/-- A client that runs and may publish was told to create, so its `READY` is honest. -/
theorem Provenance.honest_ready (h : s.Provenance config) (hpc : (s.participants c).pc = .running)
    {sharedGlobals : UInt64}
    (haccepted : publishRefused (s.participants c).client sharedGlobals = false) :
    Honest config (s.history ++ [.startupComplete c sharedGlobals,
      .sent c (readyRequest (s.participants c).client sharedGlobals)]) c
      (readyRequest (s.participants c).client sharedGlobals) := by
  obtain ⟨acquisition, hmem, hsame, hstatus⟩ := h.running c hpc
  have hcreator := (publishRefused_eq_false haccepted).1
  have hsuccess : acquisition.status = .allocSuccess := by
    rcases h.acquisitions c acquisition hmem with hfail | ⟨packet, -, hfollows⟩
    · exact absurd hfail hstatus
    · rcases hfollows.kind with hcreate | hattach
      · exact hcreate.1
      · rw [hsame, hcreator] at hattach
        exact absurd hattach.2.1 (by decide)
  rw [← hsame] at haccepted ⊢
  refine .ready ?_ hsuccess haccepted
  exact List.Sublist.append (List.singleton_sublist.mpr hmem) (List.Sublist.refl _)

/-- What an act adds to the queue and the history is honest. -/
theorem Provenance.acted (h : s.Provenance config) {x' : Participant} {ch' : Channel}
    {happened : List Happening}
    (hact : Acted (config c) c (s.participants c) (s.channels c) (x', ch', happened)) :
    (∀ d ∈ ch'.toBroker, ∃ m, d = m.encode ∧ Honest config (s.history ++ happened) c m) ∧
      (∀ packet ∈ ch'.toPeer, packet ∈ (s.channels c).toPeer) ∧
      (∀ c' acquisition, .acquired c' acquisition ∈ happened → c' = c ∧
        (acquisition.status = .allocFailure ∨ ∃ packet : Packet,
          Event.sent c packet.message packet.attached ∈ s.log ∧
            acquisition.Follows (config c).requestedSize packet)) ∧
      (x'.pc = .running → ∃ acquisition, .acquired c acquisition ∈ s.history ++ happened ∧
        acquisition.client = x'.client ∧ acquisition.status ≠ .allocFailure) ∧
      (∀ c' m, .sent c' m ∈ happened → c' = c ∧ Honest config (s.history ++ happened) c m) := by
  have hold : ∀ d ∈ (s.channels c).toBroker,
      ∃ m, d = m.encode ∧ Honest config (s.history ++ happened) c m := by
    intro d hd
    obtain ⟨m, hm, hhonest⟩ := h.queued c d hd
    exact ⟨m, hm, hhonest.extend _⟩
  have hpush : ∀ {m : MessageV1}, Honest config (s.history ++ happened) c m →
      ∀ d ∈ ((s.channels c).push m).toBroker,
        ∃ m, d = m.encode ∧ Honest config (s.history ++ happened) c m := by
    intro m hm d hd
    rcases List.mem_append.mp hd with hin | hnew
    · exact hold d hin
    · exact ⟨m, List.mem_singleton.mp hnew, hm⟩
  cases hact with
  | stayed =>
      refine ⟨hold, fun _ hp => hp, by simp, ?_, by simp⟩
      intro hpc
      rw [List.append_nil]
      exact h.running c hpc
  | begun hpc hpc' hkey =>
      refine ⟨hold, fun _ hp => hp, by simp, fun hrun => ?_, by simp⟩
      rw [hpc'] at hrun
      cases hrun
  | asked hpc hpc' hkey =>
      refine ⟨hpush (.acquire hkey), fun _ hp => hp, by simp, fun hrun => ?_, ?_⟩
      · rw [hpc'] at hrun
        cases hrun
      · intro c' m hm
        obtain ⟨rfl, rfl⟩ : c' = c ∧ m = _ := by simpa using hm
        exact ⟨rfl, .acquire hkey⟩
  | @obtained x' packet rest acquisition hpc hpc' hq hclient _ _ hfollows =>
      have hsub : ∀ packet' ∈ rest, packet' ∈ (s.channels c).toPeer := by
        intro packet' hp
        rw [hq]
        exact List.mem_cons_of_mem _ hp
      refine ⟨hold, hsub, ?_, fun _ => ?_, by simp⟩
      · intro c' acquisition' hmem
        obtain ⟨rfl, rfl⟩ : c' = c ∧ acquisition' = acquisition := by simpa using hmem
        refine ⟨rfl, .inr ⟨packet, h.replies _ packet ?_, hfollows⟩⟩
        rw [hq]
        exact List.mem_cons_self
      · exact ⟨acquisition, by simp, hclient, hfollows.status_ne⟩
  | @offered x' sharedGlobals hpc hpc' hclient _ haccepted =>
      have hready := h.honest_ready hpc haccepted
      refine ⟨hpush hready, fun _ hp => hp, by simp, fun hrun => ?_, ?_⟩
      · rw [hpc'] at hrun
        cases hrun
      · intro c' m hm
        obtain ⟨rfl, rfl⟩ : c' = c ∧ m = _ := by simpa using hm
        exact ⟨rfl, hready⟩
  | @confirmed x' sharedGlobals packet rest hpc hlate hq hack =>
      have hsub : ∀ packet' ∈ rest, packet' ∈ (s.channels c).toPeer := by
        intro packet' hp
        rw [hq]
        exact List.mem_cons_of_mem _ hp
      refine ⟨hold, hsub, by simp, fun hrun => ?_, by simp⟩
      rw [hrun] at hlate
      cases hlate
  | notified hpc hne hlate htype =>
      refine ⟨hpush (.notice htype), fun _ hp => hp, by simp, fun hrun => ?_, ?_⟩
      · rw [hrun] at hlate
        cases hlate
      · intro c' m hm
        obtain ⟨rfl, rfl⟩ : c' = c ∧ m = _ := by simpa using hm
        exact ⟨rfl, .notice htype⟩
  | silent hlate hend hb hp hc hidle =>
      refine ⟨by rw [hb]; exact hold, ?_, ?_, fun hrun => ?_, ?_⟩
      · intro packet hmem
        rcases hp with heq | htail
        · rwa [heq] at hmem
        · rw [htail] at hmem
          exact List.mem_of_mem_tail hmem
      · intro c' acquisition hmem
        obtain ⟨rfl, hfail⟩ := hidle _ hmem
        exact ⟨rfl, .inl hfail⟩
      · rw [hrun] at hlate
        cases hlate
      · exact fun c' m hmem => (hidle _ hmem).elim

theorem Provenance.participant (h : s.Provenance config) {happened : List Happening}
    (hstep : ActStep config s c t happened) : t.Provenance config := by
  obtain ⟨hqueue, hpeer, hacquired, hrunning, hsent⟩ := h.acted hstep.acted
  have hlog : t.log = s.log := by rw [log, hstep.broker]
  rw [← hstep.history] at hqueue hrunning hsent
  have hextend : ∀ {c m}, Honest config s.history c m → Honest config t.history c m := by
    intro c m hm
    rw [hstep.history]
    exact hm.extend happened
  constructor
  · intro c' d hd
    by_cases heq : c' = c
    · subst heq
      exact hqueue d hd
    · rw [(hstep.others c' heq).1] at hd
      obtain ⟨m, hm, hhonest⟩ := h.queued c' d hd
      exact ⟨m, hm, hextend hhonest⟩
  · intro c' d hd
    rw [hlog] at hd
    refine (h.taken c' d hd).imp id ?_
    rintro ⟨m, hm, hhonest⟩
    exact ⟨m, hm, hextend hhonest⟩
  · intro c' packet hp
    rw [hlog]
    by_cases heq : c' = c
    · subst heq
      exact h.replies c' packet (hpeer packet hp)
    · rw [(hstep.others c' heq).1] at hp
      exact h.replies c' packet hp
  · intro c' acquisition hmem
    rw [hlog]
    rw [hstep.history] at hmem
    rcases List.mem_append.mp hmem with hold | hnew
    · exact h.acquisitions c' acquisition hold
    · obtain ⟨rfl, hrest⟩ := hacquired c' acquisition hnew
      exact hrest
  · intro c' hpc
    by_cases heq : c' = c
    · subst heq
      exact hrunning hpc
    · rw [(hstep.others c' heq).2] at hpc ⊢
      obtain ⟨acquisition, hmem, hrest⟩ := h.running c' hpc
      exact ⟨acquisition, hstep.history ▸ List.mem_append_left _ hmem, hrest⟩
  · intro c' m hm
    rw [hstep.history] at hm
    rcases List.mem_append.mp hm with hold | hnew
    · exact hextend (h.sent c' m hold)
    · obtain ⟨rfl, hhonest⟩ := hsent c' m hnew
      exact hhonest

theorem Reachable.provenance (h : Reachable config s) : s.Provenance config := by
  refine Execution.Reachable.invariant_with (I := Provenance config) ?_ ?_ h
  · rintro s ⟨maxClients, listenerFd, rfl⟩
    exact provenance_start maxClients listenerFd
  · intro s label t hs hprov hstep
    cases label with
    | broker i => exact hprov.broker hs hstep
    | participant c act =>
        cases hstep
        obtain ⟨happened, hact⟩ := stepParticipant_spec config s c act
        exact hprov.participant hact

/-- A message the broker took from `c` is one that `c` sent. -/
theorem Provenance.requested (h : s.Provenance config) {m : MessageV1}
    (hm : Requested s.log c m) : Honest config s.history c m := by
  obtain ⟨d, hd, hreceive⟩ := hm
  rcases h.taken c d hd with rfl | ⟨m', rfl, hhonest⟩
  · exact absurd hreceive brokerReceive_nil
  · rw [brokerReceive_encode hhonest.framed] at hreceive
    cases hreceive
    exact hhonest

end Deployment

/-- An honest `ACQUIRE` carries the key and the size of its process. -/
theorem Honest.of_acquire {config : ConnId → Config} {history : List Happening} {c : ConnId}
    {m : MessageV1} (h : Honest config history c m) (htype : m.type = MessageType.acquire.code) :
    ∃ path key, (config c).key = .ok (path, key) ∧
      m = acquireRequest key (config c).requestedSize := by
  cases h with
  | acquire hkey => exact ⟨_, _, hkey, rfl⟩
  | ready =>
      have heq : MessageType.ready = .acquire := MessageType.code_injective htype
      cases heq
  | notice hnotice =>
      have heq := MessageType.code_injective htype
      rcases hnotice with rfl | rfl
      · cases heq
      · cases heq

/-- An honest `READY` stands for one call of `ahe_broker_client_publish` by a creator. -/
theorem Honest.of_ready {config : ConnId → Config} {history : List Happening} {c : ConnId}
    {m : MessageV1} (h : Honest config history c m) (htype : m.type = MessageType.ready.code) :
    ∃ acquisition sharedGlobals, InOrder history (.acquired c acquisition)
        (.startupComplete c sharedGlobals) (.sent c (readyRequest acquisition.client sharedGlobals)) ∧
      acquisition.status = .allocSuccess ∧
      publishRefused acquisition.client sharedGlobals = false ∧
      m = readyRequest acquisition.client sharedGlobals := by
  cases h with
  | acquire hkey =>
      have heq : MessageType.acquire = .ready := MessageType.code_injective htype
      cases heq
  | ready horder hstatus haccepted => exact ⟨_, _, horder, hstatus, haccepted, rfl⟩
  | notice hnotice =>
      have heq := MessageType.code_injective htype
      rcases hnotice with rfl | rfl
      · cases heq
      · cases heq

end Hyperglyph
