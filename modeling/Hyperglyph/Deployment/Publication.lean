import Hyperglyph.Deployment.Agreement
import Hyperglyph.Deployment.Dialogue

/-! The commit of a publication: a process that was told its generation is ready is right, and
a `READY` whose acknowledgement cannot be sent leaves nothing behind. -/
namespace Hyperglyph

namespace Ledger

/-- One step handles the message of one connection. -/
theorem Step.one_sender {l l' : Ledger} {events : List Event} (h : Step l events l')
    {c c' : ConnId} {d d' : List UInt8} (hd : Event.received c d ∈ events)
    (hd' : Event.received c' d' ∈ events) : c' = c := by
  cases h with
  | upkeep h => exact absurd hd (h.handles_nothing c d)
  | served _ hserved => exact (hserved.received hd').trans (hserved.received hd).symm
  | @dismissed c₀ events ph _ _ _ hserved =>
      have hin : ∀ {c d}, Event.received c d ∈
          events ++ (ph.leaveEvents c₀ ++ [.closed (.conn c₀)]) → Event.received c d ∈ events := by
        intro c d hmem
        rcases List.mem_append.mp hmem with hserve | hleave
        · exact hserve
        · simp at hleave
      exact (hserved.received (hin hd')).trans (hserved.received (hin hd)).symm

end Ledger

namespace Broker

variable {b : Broker} {c : ConnId} {p q : Nat} {d : List UInt8} {m : MessageV1}

/-- `READY` of `c` with the content of `m` is one the broker accepts for its generation. -/
structure Ready (b : Broker) (c : ConnId) (p q : Nat) (m : MessageV1) : Prop where
  builds : b.Builds c p q
  type : m.type = MessageType.ready.code
  size : m.mappingSize = b.generation.mappingSize
  base : m.mappingBase ≠ 0
  offset : m.sharedGlobalsOffset < m.mappingSize

theorem Reachable.one_sender (h : Reachable b) {i : Input} {c c' : ConnId} {d d' : List UInt8}
    (hd : Event.received c d ∈ b.newEvents (b.step i))
    (hd' : Event.received c' d' ∈ b.newEvents (b.step i)) : c' = c := by
  rcases h.step_ledger i with ⟨labels, hrun⟩ | ⟨events, hstep⟩
  · rw [newEvents_eq (Ledger.upkeeps_run hrun)] at hd
    obtain ⟨events, hlabel, hmem⟩ := List.mem_flatten.mp hd
    exact absurd hmem (Ledger.upkeeps_handle_nothing hrun hlabel c d)
  · rw [newEvents_eq (.single hstep), List.flatten_singleton] at hd hd'
    exact hstep.one_sender hd hd'

/-- A generation whose `READY` could not be acknowledged is discarded in the same step, in
which nobody else is heard. -/
theorem Reachable.unacknowledged (h : Reachable b) {i : Input} (hready : b.Ready c p q m)
    (hmem : Event.received c d ∈ b.newEvents (b.step i)) (hm : brokerReceive d = .message m)
    (hunsent : Event.unsent c (brokerMessageInit .ack) [] ∈ b.newEvents (b.step i)) :
    (b.step i).generation = generationInit ∧ (b.step i).Buried p ∧ (b.step i).Buried q ∧
      ∀ c' d', Event.received c' d' ∈ b.newEvents (b.step i) → c' = c := by
  have hphase := hready.builds.phase
  have haccepts : (Phase.building c p b.generation.mappingSize b.generation.cacheKey).Accepts c m :=
    ⟨rfl, hready.size, hready.base, hready.offset⟩
  cases h.view i c with
  | apart htaken =>
      rw [takenFrom_eq_nil] at htaken
      exact absurd hmem (htaken d)
  | active d' hopen hserved hin htaken _ _ hback hphase' =>
      have hd : d ∈ takenFrom c (b.newEvents (b.step i)) := mem_takenFrom.mpr hmem
      rw [htaken] at hd
      obtain rfl := List.mem_singleton.mp hd
      rw [hphase] at hserved
      rcases hserved.ready_reply hin hm hready.type haccepts with
        ⟨-, hph, hkeep⟩ | ⟨hevents, -, -⟩
      · rcases hphase' with ⟨hkeep', -⟩ | ⟨hleave, hclosed⟩
        · rw [hkeep] at hkeep'
          cases hkeep'
        · have hempty : (b.step i).ledger.phase = .empty := by
            rw [hleave, hph]
            exact if_pos rfl
          have hinit := (h.step_reachable i).generation_eq_init.mpr hempty
          have hloses : b.Loses i c p q :=
            .inl ⟨hready.builds, by rw [hinit]; decide, .inl hclosed⟩
          obtain ⟨-, hp, hq, -⟩ := h.discarded hloses
          exact ⟨hinit, hp, hq, fun c' d' hmem' => h.one_sender hmem hmem'⟩
      · rcases hback _ hunsent with hserve | ⟨o, ho⟩
        · rw [hevents] at hserve
          simp at hserve
        · cases ho

end Broker

/-- The broker's generation is the one the process published. -/
structure PublishedGeneration (b : Broker) (publication : Publication) : Prop where
  state : b.generation.state = .ready
  objects : ∃ p q, Holds b.kernel.fds b.generation p q ∧
    publication.cache = some (.memfd p) ∧ publication.lock = some (.memfd q)
  mappingSize : b.generation.mappingSize = publication.client.mappingSize
  mappingBase : b.generation.mappingBase = publication.client.mapping
  sharedGlobalsOffset :
    b.generation.sharedGlobalsOffset = publication.sharedGlobals - publication.client.mapping

namespace Deployment

variable {config : ConnId → Config} {s t : Deployment} {c : ConnId} {publication : Publication}

/-- The publication was committed with the pair it names. -/
def CommittedAs (b : Broker) (publication : Publication) : Prop :=
  ∃ p, publication.cache = some (.memfd p) ∧ publication.lock = some (.memfd (p + 1)) ∧
    Committed b p publication.client.mappingSize publication.client.mapping
      (publication.sharedGlobals - publication.client.mapping)

theorem CommittedAs.generation {b : Broker} (hb : Broker.Reachable b)
    (h : CommittedAs b publication) : b.pc = .returned ∨ PublishedGeneration b publication := by
  obtain ⟨p, hcache, hlock, hreturned | ⟨key, hphase⟩⟩ := h
  · exact .inl hreturned
  · right
    have hrep := hb.represents
    rw [hphase] at hrep
    generalize hsize : publication.client.mappingSize = size at hrep
    generalize hbase : publication.client.mapping = base at hrep
    generalize hoffset : publication.sharedGlobals - base = offset at hrep
    cases hrep with
    | published hs hpq =>
        exact ⟨hs, ⟨p, p + 1, hpq, hcache, hlock⟩, hsize.symm, hbase.symm, by rw [hbase, hoffset]⟩

/-- A publication enters the history with an acknowledgement that committed. -/
theorem Reachable.confirmed (h : Reachable config s) {happened : List Happening}
    (hstep : ActStep config s c t happened) {c' : ConnId}
    (hmem : .published c' publication ∈ happened) : CommittedAs s.broker publication := by
  have hstage := (h.inStep c).stage
  have hact := hstep.acted
  generalize t.participants c = x', t.channels c = ch' at hact
  cases hact with
  | stayed | begun => cases hmem
  | asked | offered | obtained | notified => simp at hmem
  | silent _ _ _ _ _ hidle => exact (hidle _ hmem).elim
  | @confirmed _ g packet rest hpc _ hq hack =>
      obtain ⟨-, rfl⟩ : c' = c ∧ publication = _ := by simpa using hmem
      rw [hpc] at hstage
      cases hstage with
      | unasked hwrong => rcases hwrong with hw | hw <;> cases hw
      | late hlate => cases hlate
      | offered _ hnone =>
          rw [hq] at hnone
          cases hnone
      | @replied _ p _ hown hreply =>
          rcases hreply with hnone | ⟨packet', hone, hcommit⟩
          · rw [hq] at hnone
            cases hnone
          · rw [hq] at hone
            cases hone
            exact ⟨p, hown.cache, hown.lock, hcommit hack⟩

theorem Reachable.committed (h : Reachable config s)
    (hmem : .published c publication ∈ s.history) : CommittedAs s.broker publication := by
  refine Execution.Reachable.invariant_with (I := fun s : Deployment => ∀ c publication,
    .published c publication ∈ s.history → CommittedAs s.broker publication) ?_ ?_ h c publication hmem
  · rintro s ⟨maxClients, listenerFd, rfl⟩ c publication hmem
    cases hmem
  · intro s label t hs hcommitted hstep c publication hmem
    cases label with
    | broker i =>
        obtain ⟨hbroker, -, hhistory, -⟩ := stepBroker_eq_some hstep
        rw [hhistory] at hmem
        obtain ⟨p, hcache, hlock, hcommit⟩ := hcommitted c publication hmem
        rw [hbroker]
        exact ⟨p, hcache, hlock, hcommit.step (Reachable.broker hs) i⟩
    | participant c' act =>
        cases hstep
        obtain ⟨happened, hact⟩ := stepParticipant_spec config s c' act
        rw [hact.history] at hmem
        rw [hact.broker]
        rcases List.mem_append.mp hmem with hold | hnew
        · exact hcommitted c publication hold
        · exact Reachable.confirmed hs hact hnew

structure PublicationCommit (s : Deployment) : Prop where
  committed : ∀ c publication, .published c publication ∈ s.history →
    s.broker.pc = .returned ∨ PublishedGeneration s.broker publication
  unacknowledged : ∀ i c p q d m, s.broker.Ready c p q m →
    Event.received c d ∈ s.broker.newEvents (s.broker.step i) → brokerReceive d = .message m →
    Event.unsent c (brokerMessageInit .ack) [] ∈ s.broker.newEvents (s.broker.step i) →
    (s.broker.step i).generation = generationInit ∧ (s.broker.step i).Buried p ∧
      (s.broker.step i).Buried q ∧
      ∀ c' d', Event.received c' d' ∈ s.broker.newEvents (s.broker.step i) → c' = c

/-- A publication that returned zero is committed; one that cannot be acknowledged is not, and
its generation is gone before anyone else is heard. -/
theorem publication_commit (h : Reachable config s) : s.PublicationCommit where
  committed := fun _ _ hmem => (h.committed hmem).generation h.broker
  unacknowledged := fun _ _ _ _ _ _ hready hmem hm hunsent =>
    h.broker.unacknowledged hready hmem hm hunsent

theorem publication_commit_of_two : ∃ s, (start 0 3).run pageConfig sharing = some s ∧
    .published 0 ⟨65552, (pageClient true).published, some (.memfd 0), some (.memfd 1)⟩ ∈ s.history ∧
      s.PublicationCommit := by
  obtain ⟨s, hrun, hhistory⟩ := Option.map_eq_some_iff.mp sharing_history
  refine ⟨s, hrun, ?_, publication_commit ((reachable_start 0 3).run hrun)⟩
  rw [hhistory]
  decide

end Deployment

end Hyperglyph
