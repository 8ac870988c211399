import Hyperglyph.Deployment.Publication

/-! One broker has one cache for good: whatever its processes attach to or publish, in whatever
order and however far apart, is the same memory at the same address. -/
namespace Hyperglyph

/-- What the `READY` of a generation settles. -/
@[ext]
structure Verdict where
  pair : Nat
  size : UInt64
  base : UInt64
  offset : UInt64

/-- What an answer with the memfds `p` and `p + 1` says. -/
def MessageV1.verdict (m : MessageV1) (p : Nat) : Verdict :=
  ⟨p, m.mappingSize, m.mappingBase, m.sharedGlobalsOffset⟩

/-- Descriptors go out with `ATTACH` only for a published phase, and say what it is. -/
theorem Served.attach_says {ph ph' : Phase} {next next' : Nat} {c c' : ConnId}
    {events : List Event} {keep : Bool} (h : Served ph next c' events ph' next' keep)
    {m : MessageV1} {p q : Nat} (hsent : .sent c m [.memfd p, .memfd q] ∈ events)
    (htype : m.type = MessageType.attach.code) :
    ∃ key, ph = .published p m.mappingSize m.mappingBase m.sharedGlobalsOffset key := by
  cases h with
  | unread => cases hsent
  | dropped | published => simp at hsent
  | answered d m' reply sent => cases sent <;> simp [replyEvent] at hsent
  | notCreated d m' made => cases keep <;> simp [replyEvent] at hsent
  | aborted d m' => cases keep <;> simp [replyEvent] at hsent
  | created d m' =>
      cases keep with
      | false => simp [replyEvent] at hsent
      | true =>
          obtain ⟨-, rfl, -⟩ : c = c' ∧ m = _ ∧ _ := by simpa [replyEvent] using hsent
          exact absurd htype create_ne_attach
  | shared d m' p' _ _ _ _ hpair =>
      cases keep with
      | false => simp [replyEvent] at hsent
      | true =>
          obtain ⟨-, rfl, rfl, -⟩ : c = c' ∧ m = ph.share ∧ p = p' ∧ _ := by
            simpa [replyEvent] using hsent
          cases ph with
          | empty => cases hpair
          | building => exact absurd htype create_ne_attach
          | published =>
              cases hpair
              exact ⟨_, rfl⟩

namespace Broker

variable {b : Broker} {i : Input} {c : ConnId} {m : MessageV1} {p q : Nat}

/-- Nothing happens any more. -/
theorem newEvents_returned (h : b.pc = .returned) (i : Input) : b.newEvents (b.step i) = [] := by
  have hkernel : (b.step i).kernel = b.kernel := by cases i <;> simp [step, h]
  rw [newEvents, hkernel, List.drop_length]

/-- The step with which the broker returns sends nothing. -/
theorem Reachable.returns_silently (h : Reachable b) (hreturned : (b.step i).pc = .returned)
    (c : ConnId) : sentTo c (b.newEvents (b.step i)) = [] := by
  by_cases hbefore : b.pc = .returned
  · rw [newEvents_returned hbefore]
    rfl
  · rcases step_cases b i with ⟨hupkeep, -⟩ | ⟨a, -, rfl, -⟩
    · obtain ⟨-, -, labels, hrun⟩ := hupkeep.refines h.inv h.tidied
      rw [newEvents_eq (Ledger.upkeeps_run hrun)]
      exact (Ledger.upkeeps_apart hrun c).2.1
    · simp only [step] at hreturned
      split at hreturned
      · cases hreturned
      · cases hreturned
      · exact absurd hreturned hbefore

/-- An `ATTACH` says what the broker has settled on before it. -/
theorem Reachable.attach_says (h : Reachable b)
    (hgiven : Event.sent c m [.memfd p, .memfd q] ∈ b.newEvents (b.step i))
    (htype : m.type = MessageType.attach.code) :
    ∃ key, b.ledger.phase = .published p m.mappingSize m.mappingBase m.sharedGlobalsOffset key := by
  have hsent : (⟨m, [.memfd p, .memfd q]⟩ : Packet) ∈ sentTo c (b.newEvents (b.step i)) :=
    mem_sentTo.mpr hgiven
  cases h.view i c with
  | apart _ hnone =>
      rw [hnone] at hsent
      cases hsent
  | active d _ hserved _ _ hsame =>
      rw [hsame] at hsent
      exact hserved.attach_says (mem_sentTo.mp hsent) htype

/-- What an `ATTACH` said is committed. -/
theorem Reachable.attach_committed (h : Reachable b) (hgiven : Given b.kernel.log c m p q)
    (htype : m.type = MessageType.attach.code) :
    Committed b p m.mappingSize m.mappingBase m.sharedGlobalsOffset := by
  revert c m p q
  refine Execution.Reachable.invariant_with (I := fun b : Broker => ∀ {c m p q},
    Given b.kernel.log c m p q → m.type = MessageType.attach.code →
      Committed b p m.mappingSize m.mappingBase m.sharedGlobalsOffset) ?_ ?_ h
  · rintro b ⟨maxClients, listenerFd, rfl⟩ c m p q hgiven
    cases hgiven
  · intro b i b' hb hall hstep c m p q hgiven htype
    rw [Step] at hstep
    subst hstep
    rw [Given, Reachable.log_step hb i] at hgiven
    rcases List.mem_append.mp hgiven with hold | hnew
    · exact (hall hold htype).step hb i
    · have hnow : Committed b p m.mappingSize m.mappingBase m.sharedGlobalsOffset :=
        .inr (Reachable.attach_says hb hnew htype)
      exact hnow.step hb i

end Broker

/-- The process has the memory the verdict is about. -/
structure Acquisition.Sees (acquisition : Acquisition) (v : Verdict) : Prop where
  cache : acquisition.cache = some (.memfd v.pair)
  lock : acquisition.lock = some (.memfd (v.pair + 1))
  mapping : acquisition.client.mapping = v.base
  mappingSize : acquisition.client.mappingSize = v.size
  globals : acquisition.outputs.reattachedSharedGlobals = v.base + v.offset

/-- What the process published is the verdict. -/
structure Publication.Sees (publication : Publication) (v : Verdict) : Prop where
  cache : publication.cache = some (.memfd v.pair)
  lock : publication.lock = some (.memfd (v.pair + 1))
  mapping : publication.client.mapping = v.base
  mappingSize : publication.client.mappingSize = v.size
  globals : publication.sharedGlobals = v.base + v.offset

theorem Publication.Sees.unique {publication : Publication} {v v' : Verdict}
    (h : publication.Sees v) (h' : publication.Sees v') : v = v' := by
  have hpair : v.pair = v'.pair := by
    have hmemfd : Object.memfd v.pair = .memfd v'.pair := by
      rw [← Option.some_inj, ← h.cache, ← h'.cache]
    exact Object.memfd.inj hmemfd
  have hbase := h.mapping.symm.trans h'.mapping
  have hoffset : v.offset = v'.offset := by
    have hglobals := h.globals.symm.trans h'.globals
    rwa [hbase, UInt64.add_right_inj] at hglobals
  exact Verdict.ext hpair (h.mappingSize.symm.trans h'.mappingSize) hbase hoffset

namespace Deployment

variable {config : ConnId → Config} {s t : Deployment} {c : ConnId}

/-- What the process `c` would publish with the globals `g`. -/
def offered (s : Deployment) (c : ConnId) (g : UInt64) (p : Nat) : Verdict :=
  let client := (s.participants c).client
  ⟨p, client.mappingSize, client.mapping, g - client.mapping⟩

/-- An acknowledgement of this publication is on its way to the process that waits for it. -/
structure Acknowledged (s : Deployment) (c : ConnId) (v : Verdict) : Prop where
  waits : ∃ g p, (s.participants c).pc = .awaitPublication g ∧ (s.participants c).Owns p ∧
    v = s.offered c g p
  packet : ∃ packet ∈ (s.channels c).toPeer, packet.message.type = MessageType.ack.code

/-- An act brings no acknowledgement. -/
theorem Acknowledged.before_act {v : Verdict} {c' : ConnId} (h : t.Acknowledged c' v)
    (hs : Reachable config s) {happened : List Happening} (hstep : ActStep config s c t happened) :
    s.Acknowledged c' v := by
  obtain ⟨⟨g, p, hpc, howns, rfl⟩, packet, hpacket, htype⟩ := h
  by_cases heq : c' = c
  · subst heq
    have hact := hstep.acted
    have hstage := (hs.inStep c').stage
    unfold offered
    generalize t.participants c' = x', t.channels c' = ch' at hact hpc howns hpacket ⊢
    cases hact with
    | stayed => exact ⟨⟨g, p, hpc, howns, rfl⟩, packet, hpacket, htype⟩
    | begun _ hpc' | asked _ hpc' | obtained _ hpc' => cases hpc.symm.trans hpc'
    | offered hrunning =>
        rw [hrunning] at hstage
        cases hstage with
        | late hlate => cases hlate
        | unasked hwrong => rcases hwrong with hw | hw <;> cases hw
        | running _ hnone =>
            rw [Channel.push_toPeer, hnone] at hpacket
            cases hpacket
    | confirmed _ hlate | notified _ _ hlate | silent hlate =>
        rw [hpc] at hlate
        cases hlate
  · rw [(hstep.others c' heq).2] at hpc howns
    rw [(hstep.others c' heq).1] at hpacket
    refine ⟨⟨g, p, hpc, howns, ?_⟩, packet, hpacket, htype⟩
    rw [offered, offered, (hstep.others c' heq).2]

/-- The step with which the broker returns brings none either. -/
theorem Acknowledged.before_return {v : Verdict} (h : t.Acknowledged c v)
    (hs : Reachable config s) {i : Input} (hstep : s.stepBroker i = some t)
    (hreturned : t.broker.pc = .returned) : s.Acknowledged c v := by
  obtain ⟨hbroker, hparticipants, -, habsorb⟩ := stepBroker_eq_some hstep
  obtain ⟨⟨g, p, hpc, howns, rfl⟩, packet, hpacket, htype⟩ := h
  have hsilent : sentTo c (s.broker.newEvents (s.broker.step i)) = [] :=
    hs.broker.returns_silently (by rw [← hbroker]; exact hreturned) c
  rw [(absorbed habsorb c).toPeer, hsilent, List.append_nil] at hpacket
  rw [hparticipants] at hpc howns
  refine ⟨⟨g, p, hpc, howns, ?_⟩, packet, hpacket, htype⟩
  rw [offered, offered, hparticipants]

theorem Reachable.acknowledged_committed (h : Reachable config s) {v : Verdict}
    (hack : s.Acknowledged c v) : Committed s.broker v.pair v.size v.base v.offset := by
  obtain ⟨⟨g, p, hpc, howns, rfl⟩, packet, hpacket, htype⟩ := hack
  have hstage := (h.inStep c).stage
  rw [hpc] at hstage
  cases hstage with
  | late hlate => cases hlate
  | unasked hwrong => rcases hwrong with hw | hw <;> cases hw
  | offered _ hnone =>
      rw [hnone] at hpacket
      cases hpacket
  | @replied _ p' _ howns' hreply =>
      rcases hreply with hnone | ⟨packet', hone, hcommit⟩
      · rw [hnone] at hpacket
        cases hpacket
      · rw [hone] at hpacket
        obtain rfl := List.mem_singleton.mp hpacket
        have hpair : Object.memfd p = .memfd p' := by
          rw [← Option.some_inj, ← howns.cache, ← howns'.cache]
        cases hpair
        exact hcommit htype

/-- A process that may publish was answered `CREATE` with the memfds it has. -/
structure Founded (s : Deployment) : Prop where
  running : ∀ c, (s.participants c).pc = .running → (s.participants c).client.creator = true →
    ∃ p, (s.participants c).Owns p ∧ Created s.log c p (p + 1)
  awaiting : ∀ c g, (s.participants c).pc = .awaitPublication g →
    ∃ p, (s.participants c).Owns p ∧ Created s.log c p (p + 1)

theorem Founded.broker (h : s.Founded) (hs : Reachable config s) {i : Input}
    (hstep : s.stepBroker i = some t) : t.Founded := by
  obtain ⟨hbroker, hparticipants, -, -⟩ := stepBroker_eq_some hstep
  have hkept : ∀ {c p}, Created s.log c p (p + 1) → Created t.log c p (p + 1) := by
    intro c p hcreated
    obtain ⟨m, hgiven, htype⟩ := hcreated
    rw [log, hbroker, hs.broker.log_step i]
    exact ⟨m, List.mem_append_left _ hgiven, htype⟩
  constructor
  · intro c hpc hcreator
    rw [hparticipants] at hpc hcreator ⊢
    obtain ⟨p, howns, hcreated⟩ := h.running c hpc hcreator
    exact ⟨p, howns, hkept hcreated⟩
  · intro c g hpc
    rw [hparticipants] at hpc ⊢
    obtain ⟨p, howns, hcreated⟩ := h.awaiting c g hpc
    exact ⟨p, howns, hkept hcreated⟩

theorem Founded.participant (h : s.Founded) (hs : Reachable config s) {happened : List Happening}
    (hstep : ActStep config s c t happened) : t.Founded := by
  have hlog : t.log = s.log := by rw [log, hstep.broker]
  have hown : ((t.participants c).pc = .running → (t.participants c).client.creator = true →
      ∃ p, (t.participants c).Owns p ∧ Created s.log c p (p + 1)) ∧
      ∀ g, (t.participants c).pc = .awaitPublication g →
        ∃ p, (t.participants c).Owns p ∧ Created s.log c p (p + 1) := by
    have hact := hstep.acted
    generalize t.participants c = x', t.channels c = ch' at hact ⊢
    cases hact with
    | stayed => exact ⟨h.running c, h.awaiting c⟩
    | begun _ hpc' | asked _ hpc' =>
        rw [hpc']
        exact ⟨fun hpc => (by cases hpc), fun g hpc => (by cases hpc)⟩
    | @obtained _ packet rest acquisition _ hpc' hq hclient hcache hlock hfollows =>
        rw [hpc']
        refine ⟨fun _ hcreator => ?_, fun g hpc => (by cases hpc)⟩
        obtain ⟨cache, lock, hattached, hc, hl⟩ := hfollows.objects
        have hsent := hs.provenance.replies c packet (by rw [hq]; exact List.mem_cons_self)
        rw [hattached] at hsent
        obtain ⟨p, rfl, rfl, hgiven⟩ := hs.records.pair_of_sent hsent
        refine ⟨p, ⟨hcache.symm.trans hc, hlock.symm.trans hl⟩, packet.message, hgiven, ?_⟩
        rcases hfollows.kind with hcreate | hattach
        · exact hcreate.2.2
        · rw [hclient, hcreator] at hattach
          cases hattach.2.1
    | @offered _ g hpc hpc' hclient hfds haccepted =>
        rw [hpc']
        refine ⟨fun hrun => (by cases hrun), fun g' _ => ?_⟩
        obtain ⟨p, howns, hcreated⟩ := h.running c hpc (publishRefused_eq_false haccepted).1
        refine ⟨p, ⟨?_, ?_⟩, hcreated⟩
        · rw [hfds, hclient]
          exact howns.cache
        · rw [hfds, hclient]
          exact howns.lock
    | confirmed _ hlate | notified _ _ hlate | silent hlate =>
        refine ⟨fun hpc => ?_, fun g hpc => ?_⟩
        · rw [hpc] at hlate
          cases hlate
        · rw [hpc] at hlate
          cases hlate
  constructor
  · intro c' hpc hcreator
    rw [hlog]
    by_cases heq : c' = c
    · subst heq
      exact hown.1 hpc hcreator
    · rw [(hstep.others c' heq).2] at hpc hcreator ⊢
      exact h.running c' hpc hcreator
  · intro c' g hpc
    rw [hlog]
    by_cases heq : c' = c
    · subst heq
      exact hown.2 g hpc
    · rw [(hstep.others c' heq).2] at hpc ⊢
      exact h.awaiting c' g hpc

theorem Reachable.founded (h : Reachable config s) : s.Founded := by
  refine Execution.Reachable.invariant_with (I := Founded) ?_ ?_ h
  · rintro s ⟨maxClients, listenerFd, rfl⟩
    exact ⟨fun c hpc => (by cases hpc), fun c g hpc => (by cases hpc)⟩
  · intro s label t hs hfounded hstep
    cases label with
    | broker i => exact hfounded.broker hs hstep
    | participant c act =>
        cases hstep
        obtain ⟨happened, hact⟩ := stepParticipant_spec config s c act
        exact hfounded.participant hs hact

/-! ### Everything that was said is one -/

/-- A publication enters the history with an acknowledgement, and by the process its generation
was made for. -/
theorem Reachable.confirmed_acknowledged (h : Reachable config s) {happened : List Happening}
    (hstep : ActStep config s c t happened) {c' : ConnId} {publication : Publication}
    (hmem : .published c' publication ∈ happened) : ∃ v, s.Acknowledged c' v ∧
      publication.Sees v ∧ Created s.log c' v.pair (v.pair + 1) := by
  have hact := hstep.acted
  generalize t.participants c = x', t.channels c = ch' at hact
  cases hact with
  | stayed | begun => cases hmem
  | asked | offered | obtained | notified => simp at hmem
  | silent _ _ _ _ _ hidle => exact (hidle _ hmem).elim
  | @confirmed _ g packet rest hpc _ hq hack =>
      obtain ⟨rfl, rfl⟩ : c' = c ∧ publication = _ := by simpa using hmem
      obtain ⟨p, howns, hcreated⟩ := h.founded.awaiting c' g hpc
      have hpacket : packet ∈ (s.channels c').toPeer := by
        rw [hq]
        exact List.mem_cons_self
      refine ⟨_, ⟨⟨g, p, hpc, howns, rfl⟩, packet, hpacket, hack⟩, ?_, hcreated⟩
      refine ⟨howns.cache, howns.lock, rfl, rfl, ?_⟩
      simp only [offered]
      rw [UInt64.add_comm, UInt64.sub_add_cancel]

/-- Someone was told this, or has told it. -/
inductive Says (s : Deployment) (v : Verdict) : Prop
  | attach {c : ConnId} {m : MessageV1} {p q : Nat} : Given s.log c m p q →
      m.type = MessageType.attach.code → m.verdict p = v → Says s v
  | acknowledged {c : ConnId} : s.Acknowledged c v → Says s v
  | published {c : ConnId} {publication : Publication} :
      .published c publication ∈ s.history → publication.Sees v → Says s v

variable {v v' : Verdict}

/-- A process says what it was told. -/
theorem Says.before_act (h : t.Says v) (hs : Reachable config s) {happened : List Happening}
    (hstep : ActStep config s c t happened) : s.Says v := by
  cases h with
  | attach hgiven htype htold =>
      rw [log, hstep.broker] at hgiven
      exact .attach hgiven htype htold
  | acknowledged hack => exact .acknowledged (hack.before_act hs hstep)
  | published hmem hsees =>
      rw [hstep.history] at hmem
      rcases List.mem_append.mp hmem with hold | hnew
      · exact .published hold hsees
      · obtain ⟨v', hack, hsees', -⟩ := hs.confirmed_acknowledged hstep hnew
        rw [hsees.unique hsees']
        exact .acknowledged hack

/-- The broker says nothing new when it returns. -/
theorem Says.before_return (h : t.Says v) (hs : Reachable config s) {i : Input}
    (hstep : s.stepBroker i = some t) (hreturned : t.broker.pc = .returned) : s.Says v := by
  obtain ⟨hbroker, -, hhistory, -⟩ := stepBroker_eq_some hstep
  cases h with
  | @attach c m p q hgiven htype htold =>
      rw [Given, log, hbroker, hs.broker.log_step i] at hgiven
      rcases List.mem_append.mp hgiven with hold | hnew
      · exact .attach hold htype htold
      · have hsent : (⟨m, [.memfd p, .memfd q]⟩ : Packet) ∈
            sentTo c (s.broker.newEvents (s.broker.step i)) := mem_sentTo.mpr hnew
        rw [hs.broker.returns_silently (by rw [← hbroker]; exact hreturned) c] at hsent
        cases hsent
  | acknowledged hack => exact .acknowledged (hack.before_return hs hstep hreturned)
  | published hmem hsees =>
      rw [hhistory] at hmem
      exact .published hmem hsees

/-- What was said was committed. -/
theorem Says.committed (h : s.Says v) (hs : Reachable config s) :
    Committed s.broker v.pair v.size v.base v.offset := by
  cases h with
  | attach hgiven htype htold =>
      subst htold
      exact hs.broker.attach_committed hgiven htype
  | acknowledged hack => exact hs.acknowledged_committed hack
  | @published _ publication hmem hsees =>
      obtain ⟨p, hcache, hlock, hcommitted⟩ := hs.committed hmem
      have hcommit : publication.Sees ⟨p, publication.client.mappingSize,
          publication.client.mapping, publication.sharedGlobals - publication.client.mapping⟩ := by
        refine ⟨hcache, hlock, rfl, rfl, ?_⟩
        rw [UInt64.add_comm, UInt64.sub_add_cancel]
      rwa [hsees.unique hcommit]

theorem Reachable.says_one (h : Reachable config s) (htold : s.Says v) (htold' : s.Says v') :
    v = v' := by
  revert v v'
  refine Execution.Reachable.invariant_with
    (I := fun s : Deployment => ∀ {v v'}, s.Says v → s.Says v' → v = v') ?_ ?_ h
  · rintro s ⟨maxClients, listenerFd, rfl⟩ v v' htold
    cases htold with
    | attach hgiven | published hgiven => cases hgiven
    | acknowledged hack =>
        obtain ⟨g, p, hpc, -⟩ := hack.waits
        cases hpc
  · intro s label t hs hone hstep v v' htold htold'
    cases label with
    | participant c act =>
        cases hstep
        obtain ⟨happened, hact⟩ := stepParticipant_spec config s c act
        exact hone (htold.before_act hs hact) (htold'.before_act hs hact)
    | broker i =>
        by_cases hreturned : t.broker.pc = .returned
        · exact hone (htold.before_return hs hstep hreturned)
            (htold'.before_return hs hstep hreturned)
        · -- a broker that is still there has one published phase
          have ht : Reachable config t := Execution.Reachable.tail hs hstep
          obtain ⟨key, hphase⟩ := (htold.committed ht).resolve_left hreturned
          obtain ⟨key', hphase'⟩ := (htold'.committed ht).resolve_left hreturned
          rw [hphase] at hphase'
          obtain ⟨hpair, hsize, hbase, hoffset, -⟩ := Phase.published.inj hphase'
          exact Verdict.ext hpair hsize hbase hoffset

/-- A process that attached was told what it sees. -/
theorem Reachable.says_attached (h : Reachable config s) {acquisition : Acquisition}
    (hmem : .acquired c acquisition ∈ s.history)
    (hstatus : acquisition.status = .successfullyReattached) :
    ∃ v, s.Says v ∧ acquisition.Sees v := by
  rcases h.provenance.acquisitions c acquisition hmem with hfail | ⟨packet, hsent, hfollows⟩
  · rw [hstatus] at hfail
    cases hfail
  · obtain ⟨cache, lock, hattached, hcache, hlock⟩ := hfollows.objects
    rw [hattached] at hsent
    obtain ⟨p, rfl, rfl, hgiven⟩ := h.records.pair_of_sent hsent
    rcases hfollows.kind with hcreate | ⟨-, -, htype, hmapping, hglobals⟩
    · rw [hstatus] at hcreate
      cases hcreate.1
    · have hsize := hfollows.mappingSize.trans hfollows.requested.symm
      exact ⟨_, .attach hgiven htype rfl, hcache, hlock, hmapping, hsize, hglobals⟩

/-- Whoever published a generation is the one it was made for. -/
theorem Reachable.publisher_created (h : Reachable config s) {publication : Publication}
    (hmem : .published c publication ∈ s.history) :
    ∃ v, publication.Sees v ∧ Created s.log c v.pair (v.pair + 1) := by
  refine Execution.Reachable.invariant_with (I := fun s : Deployment => ∀ c publication,
    .published c publication ∈ s.history → ∃ v, publication.Sees v ∧
      Created s.log c v.pair (v.pair + 1)) ?_ ?_ h c publication hmem
  · rintro s ⟨maxClients, listenerFd, rfl⟩ c publication hmem
    cases hmem
  · intro s label t hs hall hstep c publication hmem
    cases label with
    | broker i =>
        obtain ⟨hbroker, -, hhistory, -⟩ := stepBroker_eq_some hstep
        rw [hhistory] at hmem
        obtain ⟨v, hsees, m, hgiven, htype⟩ := hall c publication hmem
        refine ⟨v, hsees, m, ?_, htype⟩
        rw [log, hbroker, (Reachable.broker hs).log_step i]
        exact List.mem_append_left _ hgiven
    | participant c' act =>
        cases hstep
        obtain ⟨happened, hact⟩ := stepParticipant_spec config s c' act
        rw [hact.history] at hmem
        rw [log, hact.broker]
        rcases List.mem_append.mp hmem with hold | hnew
        · exact hall c publication hold
        · obtain ⟨v, -, hsees, hcreated⟩ := Reachable.confirmed_acknowledged hs hact hnew
          exact ⟨v, hsees, hcreated⟩

/-- One broker has one cache: all that attach to it and the one that published it have the
same memory at the same address. -/
theorem one_cache (hs : Reachable config s) : ∃ v : Verdict,
    (∀ c acquisition, .acquired c acquisition ∈ s.history →
      acquisition.status = .successfullyReattached → acquisition.Sees v) ∧
    (∀ c publication, .published c publication ∈ s.history → publication.Sees v) ∧
    ∀ c c' publication publication', .published c publication ∈ s.history →
      .published c' publication' ∈ s.history → c = c' := by
  have hpublisher : ∀ c c' publication publication', .published c publication ∈ s.history →
      .published c' publication' ∈ s.history → c = c' := by
    intro c c' publication publication' hmem hmem'
    obtain ⟨v, hsees, hcreated⟩ := hs.publisher_created hmem
    obtain ⟨v', hsees', hcreated'⟩ := hs.publisher_created hmem'
    obtain rfl := hs.says_one (.published hmem hsees) (.published hmem' hsees')
    exact hs.records.creator_unique c c' _ _ hcreated hcreated'
  by_cases hsaid : ∃ v, s.Says v
  · obtain ⟨v, htold⟩ := hsaid
    refine ⟨v, ?_, ?_, hpublisher⟩
    · intro c acquisition hmem hstatus
      obtain ⟨v', htold', hsees⟩ := hs.says_attached hmem hstatus
      rwa [hs.says_one htold htold']
    · intro c publication hmem
      obtain ⟨v', hsees, -⟩ := hs.publisher_created hmem
      rwa [hs.says_one htold (.published hmem hsees)]
  · refine ⟨⟨0, 0, 0, 0⟩, ?_, ?_, hpublisher⟩
    · intro c acquisition hmem hstatus
      obtain ⟨v, htold, -⟩ := hs.says_attached hmem hstatus
      exact absurd ⟨v, htold⟩ hsaid
    · intro c publication hmem
      obtain ⟨v, hsees, -⟩ := hs.publisher_created hmem
      exact absurd ⟨v, .published hmem hsees⟩ hsaid

theorem one_cache_of_two : ∃ s, (start 0 3).run pageConfig sharing = some s ∧
    ∃ v : Verdict, (pageAcquisition .successfullyReattached false 65552).Sees v ∧
      (⟨65552, (pageClient true).published, some (.memfd 0), some (.memfd 1)⟩ : Publication).Sees v := by
  obtain ⟨s, hrun, hhistory⟩ := Option.map_eq_some_iff.mp sharing_history
  obtain ⟨v, hattached, hpublished, -⟩ := one_cache ((reachable_start 0 3).run hrun)
  refine ⟨s, hrun, v, hattached 1 _ ?_ rfl, hpublished 0 _ ?_⟩
  · rw [hhistory]
    decide
  · rw [hhistory]
    decide

end Deployment

end Hyperglyph
