import Hyperglyph.Broker.Custody

/-! One creator for each generation, no sharing before publication, and no trace of a
generation that was given up. -/
namespace Hyperglyph

open History Octets

theorem Records.others_after_ready {log : List Event} {next : Nat} (h : Records log next)
    {c' : ConnId} {m : MessageV1} {p q : Nat} (hgiven : Given log c' m p q) :
    ∃ c, Created log c p q ∧ (c' = c ∨
      ∃ r, CreatedSentGiven log c p q r c' m ∧ r.type = MessageType.ready.code) := by
  rcases h.kinds c' m p q hgiven with hcreate | hattach
  · exact ⟨c', ⟨m, hgiven, hcreate⟩, .inl rfl⟩
  · obtain ⟨c, ⟨acquire, ready, request, -, -, hready, htype, -⟩⟩ :=
      h.attached_after c' m p q hgiven hattach
    exact ⟨c, hready.created, .inr ⟨ready, hready, htype⟩⟩

namespace Broker

/-- What happened between two states of a run. -/
def newEvents (b b' : Broker) : List Event := b'.kernel.log.drop b.kernel.log.length

theorem newEvents_eq {b b' : Broker} {labels : List (List Event)}
    (h : Ledger.Run b.ledger labels b'.ledger) : b.newEvents b' = labels.flatten := by
  have hlog : b'.kernel.log = b.kernel.log ++ labels.flatten := h.log_eq
  rw [newEvents, hlog, List.drop_left]

/-- The connection `c` builds the generation with the memfds `p` and `q`. -/
structure Builds (b : Broker) (c : ConnId) (p q : Nat) : Prop where
  state : b.generation.state = .initializing
  creator : b.kernel.fds.get b.generation.creatorFd = some (.conn c)
  held : Holds b.kernel.fds b.generation p q

/-- In the step from `b` the generation `p`, `q` is lost before publication: its creator was
closed or its `ABORT` handled, or its `CREATE` could not be sent, or was sent and the connection
closed in the same step. -/
def Loses (b : Broker) (i : Input) (c : ConnId) (p q : Nat) : Prop :=
  (b.Builds c p q ∧ (b.step i).generation.state ≠ .ready ∧
      Ledger.GivenUp (b.newEvents (b.step i)) c) ∨
    ∃ m, m.type = MessageType.create.code ∧
      (Event.unsent c m [.memfd p, .memfd q] ∈ b.newEvents (b.step i) ∨
        Event.sent c m [.memfd p, .memfd q] ∈ b.newEvents (b.step i) ∧
          Event.closed (.conn c) ∈ b.newEvents (b.step i))

/-- The memfd is closed, and in every continuation it stays so and is never sent again. -/
def Buried (b : Broker) (n : Nat) : Prop :=
  ∀ labels b', Execution.Run Step b labels b' →
    (∀ fd, b'.kernel.fds.get fd ≠ some (.memfd n)) ∧
      ∀ c m attached, Event.sent c m attached ∈ b.newEvents b' → Object.memfd n ∉ attached

/-- The next valid `ACQUIRE` handled, whoever sends it, is answered `CREATE` with new memfds,
if the kernel makes them. -/
def StartsAfresh (b : Broker) : Prop :=
  ∀ labels b', Execution.Run Step b labels b' →
    (∀ c d m, Event.received c d ∈ b.newEvents b' → ¬ ValidAcquire d m) →
    b'.generation = generationInit ∧
      ∀ a c d m, Event.received c d ∈ b'.newEvents (b'.step (.dispatch a)) → ValidAcquire d m →
        memfdsMade (b'.kernel.emit [.received c d]) a.toCreateAnswers = true →
        ∃ p response, b.kernel.nextMemfd ≤ p ∧ response.type = MessageType.create.code ∧
          replyEvent c response [.memfd p, .memfd (p + 1)] a.sent ∈
            b'.newEvents (b'.step (.dispatch a))

structure SingleCreator (b : Broker) : Prop where
  creator_unique : ∀ c c' p q, Created b.kernel.log c p q → Created b.kernel.log c' p q → c = c'
  /-- A generation becomes ready in a step that handles `READY` of the connection answered
  `CREATE`. -/
  ready_by_creator : ∀ i, b.generation.state ≠ .ready → (b.step i).generation.state = .ready →
    ∃ c p q d m, b.Builds c p q ∧ Holds (b.step i).kernel.fds (b.step i).generation p q ∧
      Created b.kernel.log c p q ∧ Event.received c d ∈ b.newEvents (b.step i) ∧
      brokerReceive d = .message m ∧ m.type = MessageType.ready.code
  /-- Whoever was sent the descriptors is the creator, or was sent them after its `READY`. -/
  others_after_ready : ∀ c' m p q, Given b.kernel.log c' m p q →
    ∃ c, Created b.kernel.log c p q ∧ (c' = c ∨
      ∃ r, CreatedSentGiven b.kernel.log c p q r c' m ∧ r.type = MessageType.ready.code)
  /-- As long as a generation is under construction its creator alone was sent the descriptors. -/
  others_excluded : ∀ c p q, b.Builds c p q → ∀ c' m, Given b.kernel.log c' m p q → c' = c
  /-- Whoever is sent the descriptors is the connection answered `CREATE`, or the generation is
  ready. -/
  others_when_ready : ∀ i c' m p q,
    Event.sent c' m [.memfd p, .memfd q] ∈ b.newEvents (b.step i) →
      Created (b.step i).kernel.log c' p q ∨
        b.generation.state = .ready ∧ Holds b.kernel.fds b.generation p q
  discarded : ∀ i c p q, b.Loses i c p q →
    (b.step i).generation = generationInit ∧ (b.step i).Buried p ∧ (b.step i).Buried q ∧
      (b.step i).StartsAfresh

theorem Reachable.step_reachable {b : Broker} (h : Reachable b) (i : Input) :
    Reachable (b.step i) := h.foldl [i]

theorem Reachable.run_reachable {b b' : Broker} {inputs : List Input} (h : Reachable b)
    (hrun : Execution.Run Step b inputs b') : Reachable b' := Execution.Reachable.extend h hrun

/-- Every run of the broker is a run of its ledger. -/
theorem Reachable.run_refines {b b' : Broker} {inputs : List Input} (h : Reachable b)
    (hrun : Execution.Run Step b inputs b') : ∃ labels, Ledger.Run b.ledger labels b'.ledger := by
  induction hrun with
  | start => exact ⟨[], .start⟩
  | @next before t i u hprefix last ih =>
      obtain ⟨labels, hledger⟩ := ih
      obtain ⟨more, hstep⟩ := (h.run_reachable hprefix).step_refines i
      rw [Step] at last
      subst last
      exact ⟨labels ++ more, hledger.append hstep⟩

theorem Upkeeps.refines {b b' : Broker} (h : Upkeeps b b') (hinv : b.Inv) (ht : b.Tidied) :
    b'.Inv ∧ b'.Tidied ∧ ∃ labels, Execution.Run Ledger.Upkeep b.ledger labels b'.ledger := by
  induction h with
  | refl => exact ⟨hinv, ht, [], .start⟩
  | tail _ hmove ih =>
      obtain ⟨hinv', ht', labels, hrun⟩ := ih
      obtain ⟨ht'', last, hstep⟩ := hmove.refines hinv' ht'
      exact ⟨hinv'.upkeep hmove, ht'', labels ++ [last], hrun.next hstep⟩

/-- A step of the main loop is upkeep of the ledger or one step of it. -/
theorem Reachable.step_ledger {b : Broker} (h : Reachable b) (i : Input) :
    (∃ labels, Execution.Run Ledger.Upkeep b.ledger labels (b.step i).ledger) ∨
      ∃ events, Ledger.Step b.ledger events (b.step i).ledger := by
  rcases step_cases b i with ⟨hupkeep, -⟩ |
    ⟨a, b', -, -, hk, hg, -, -, index, client, hclient, -, hserve⟩
  · exact .inl (hupkeep.refines h.inv h.tidied).2.2
  · right
    have hledger : (b.step i).ledger = b'.ledger := by rw [ledger, ledger, hk, hg]
    rw [hledger]
    rcases hserve with ⟨hkeep, rfl⟩ | rfl
    · exact (refines_serve h.inv h.tidied hclient hkeep).2
    · exact (refines_serveClose h.inv h.tidied hclient).2

theorem Reachable.represents {b : Broker} (h : Reachable b) :
    Represents b.kernel.fds b.generation b.ledger.phase := by
  obtain ⟨ph, hrep⟩ := h.inv.represents h.tidied
  rw [ledger_of_represents hrep]
  exact hrep

theorem Reachable.generation_eq_init {b : Broker} (h : Reachable b) :
    b.generation = generationInit ↔ b.ledger.phase = .empty := by
  constructor
  · intro hg
    have hrep := h.represents
    rw [hg] at hrep
    exact hrep.of_init
  · intro hph
    have hrep := h.represents
    rw [hph] at hrep
    exact hrep.state_empty

theorem Builds.phase {b : Broker} {c : ConnId} {p q : Nat} (h : b.Builds c p q) :
    b.ledger.phase = .building c p b.generation.mappingSize b.generation.cacheKey := by
  simp only [ledger, phaseOf, h.state, h.held.cache, h.creator]

theorem Reachable.buried {b : Broker} (h : Reachable b) {n : Nat} (hn : b.ledger.Retired n) :
    b.Buried n := by
  intro inputs b' hrun
  obtain ⟨labels, hledger⟩ := h.run_refines hrun
  obtain ⟨⟨-, hout⟩, hsent⟩ := hledger.retired hn
  constructor
  · intro fd hfd
    have hb' := h.run_reachable hrun
    have hrep := hb'.represents
    have hheld := hb'.tidied.memfd_held fd n hfd
    generalize hph : b'.ledger.phase = ph at hrep hout
    cases hrep with
    | empty hg =>
        rw [hg] at hheld
        rw [show fd = -1 from hheld.elim id id, DescriptorTable.get_neg (by decide)] at hfd
        cases hfd
    | building _ hpq _ _ _ | published _ hpq =>
        obtain ⟨hne, hne'⟩ := hout _ rfl
        rcases hheld with rfl | rfl
        · rw [hpq.cache] at hfd
          cases hfd
          exact hne rfl
        · rw [hpq.lock] at hfd
          cases hfd
          exact hne' rfl
  · rw [newEvents_eq hledger]
    exact hsent

end Broker

section NextRequest

variable {k : Kernel} {client : ClientConnection} {c c' : ConnId} {g : Generation} {a : Answers}
  {r : Kernel × ClientConnection × Generation × Bool} {d : List UInt8} {m : MessageV1}

/-- The message an activation takes is the one `recv` returned for its client. -/
theorem HandleMessage.takes (h : HandleMessage k client c g a r) {events : List Event}
    (hlog : r.1.log = k.log ++ events) (hmem : Event.received c' d ∈ events) :
    c' = c ∧ a.recv = .datagram d := by
  have hevents : ∀ {more}, k.log ++ events = k.log ++ more → Event.received c' d ∈ more := by
    intro more heq
    rwa [← List.append_cancel_left heq]
  cases h with
  | failed => exact absurd (hevents (hlog.symm.trans (List.append_nil _).symm)) List.not_mem_nil
  | dropped d' hrecv | plain d' m' _ _ hrecv | shared d' m' _ _ hrecv | published d' m' hrecv
  | aborted d' m' _ _ hrecv =>
      have hin := hevents hlog.symm
      simp only [List.mem_cons, Event.received.injEq, received_ne_reply, reduceCtorEq,
        List.not_mem_nil, or_false] at hin
      exact ⟨hin.1, hin.2 ▸ hrecv⟩
  | created d' m' _ _ hrecv =>
      have hin := hevents (hlog.symm.trans (List.append_assoc _ _ _))
      simp only [List.cons_append, List.nil_append, List.mem_cons, Event.received.injEq,
        received_ne_reply, List.not_mem_nil, or_false] at hin
      exact ⟨hin.1, hin.2 ▸ hrecv⟩
  | notCreated d' m' made hrecv =>
      have hin := hevents (hlog.symm.trans ((List.append_assoc _ _ _).trans (List.append_assoc _ _ _)))
      simp at hin
      exact ⟨hin.1, hin.2 ▸ hrecv⟩

/-- A valid `ACQUIRE` that finds no generation is answered `CREATE` with new memfds, if the
kernel makes them. -/
theorem HandleMessage.starts (h : HandleMessage k client c generationInit a r)
    (hrecv : a.recv = .datagram d) (hvalid : ValidAcquire d m)
    (hmade : memfdsMade (k.emit [.received c d]) a.toCreateAnswers = true) :
    ∃ response, response.type = MessageType.create.code ∧
      r.1.log = k.log ++ [.received c d,
        replyEvent c response [.memfd k.nextMemfd, .memfd (k.nextMemfd + 1)] a.sent] := by
  obtain ⟨hm, htype, hrequest⟩ := hvalid
  have hsame : ∀ {d' m'}, a.recv = .datagram d' → brokerReceive d' = .message m' → d' = d ∧ m' = m := by
    intro d' m' hrecv' hm'
    obtain rfl : d' = d := by simpa [hrecv] using hrecv'.symm
    exact ⟨rfl, by simpa [hm] using hm'.symm⟩
  have hother : ∀ {type : MessageType}, m.type = type.code → type = .acquire := by
    intro type htype'
    exact MessageType.code_injective (htype'.symm.trans htype)
  cases h with
  | failed hrecv' => rw [hrecv] at hrecv'; cases hrecv'
  | dropped d' hrecv' hd =>
      obtain rfl : d' = d := by simpa [hrecv] using hrecv'.symm
      exact absurd hm (hd m)
  | plain d' m' reply keep hrecv' hm' hreply =>
      obtain ⟨rfl, rfl⟩ := hsame hrecv' hm'
      cases hreply with
      | declined _ hg _ => exact absurd rfl hg
      | rejected h' | unacknowledged h' | ignored h' | detached h' => cases hother h'
      | unknown h' => exact absurd htype h'
  | shared d' m' p q _ _ _ hg => exact absurd rfl hg
  | created d' m' cacheFd lockFd hrecv' hm' _ _ _ _ _ _ _ =>
      obtain ⟨rfl, rfl⟩ := hsame hrecv' hm'
      refine ⟨shareResponse (createdGeneration cacheFd lockFd client.fd m'), rfl, ?_⟩
      exact List.append_assoc _ _ _
  | notCreated d' m' made hrecv' hm' _ _ _ hwhy =>
      obtain ⟨rfl, rfl⟩ := hsame hrecv' hm'
      rcases hwhy with hinvalid | hfail
      · rw [hrequest] at hinvalid
        cases hinvalid
      · rw [hmade] at hfail
        cases hfail
  | published d' m' hrecv' hm' htype' =>
      obtain ⟨rfl, rfl⟩ := hsame hrecv' hm'
      cases hother htype'
  | aborted d' m' p q hrecv' hm' htype' =>
      obtain ⟨rfl, rfl⟩ := hsame hrecv' hm'
      cases hother htype'

end NextRequest

namespace Broker

theorem newEvents_of_log {b b' : Broker} {events : List Event}
    (h : b'.kernel.log = b.kernel.log ++ events) : b.newEvents b' = events := by
  rw [newEvents, h, List.drop_left]

/-- A step that takes a message is one activation of the handler, and perhaps a close. -/
theorem Reachable.takes {b : Broker} (h : Reachable b) {i : Input} {c : ConnId} {d : List UInt8}
    (hmem : Event.received c d ∈ b.newEvents (b.step i)) :
    ∃ a client r events more, i = .dispatch a ∧
      HandleMessage b.kernel client c b.generation a r ∧ a.recv = .datagram d ∧
      r.1.log = b.kernel.log ++ events ∧ b.newEvents (b.step i) = events ++ more ∧
      ∀ e ∈ more, ∃ o, e = .closed o := by
  rcases step_cases b i with ⟨hupkeep, -⟩ |
    ⟨a, b', hi, -, hk, -, -, -, index, client, hclient, -, hserve⟩
  · obtain ⟨-, -, labels, hrun⟩ := hupkeep.refines h.inv h.tidied
    rw [newEvents_eq (Ledger.upkeeps_run hrun)] at hmem
    obtain ⟨events, hlabel, hmem'⟩ := List.mem_flatten.mp hmem
    exact absurd hmem' (Ledger.upkeeps_handle_nothing hrun hlabel c d)
  · obtain ⟨c', hc', hmsg⟩ := h.inv.served hclient a
    obtain ⟨ph, hrep⟩ := h.inv.represents h.tidied
    obtain ⟨events, ph', hlog, hrep', -⟩ := hmsg.refines hrep h.tidied hc'
    have hfound : ∃ more, b.newEvents (b.step i) = events ++ more ∧
        ∀ e ∈ more, ∃ o, e = .closed o := by
      rcases hserve with ⟨-, rfl⟩ | rfl
      · refine ⟨[], ?_, by simp⟩
        rw [List.append_nil]
        exact newEvents_of_log (by rw [← hk]; exact hlog)
      · have hinv := h.inv.serveClient hclient a
        have hslot := (List.getElem?_eq_some_iff.mp hclient).1
        have hlt : index < (b.serveClient index client a).1.clients.length := by
          simpa [serveClient] using hslot
        obtain ⟨c₂, ph₂, -, -, hledger, -⟩ := closeClient_step hinv (hmsg.tidy h.tidied) hlt
        have hlog₂ := congrArg Ledger.log hledger
        have hlog' : (b.step i).kernel.log =
            b.kernel.log ++ (events ++ (ph₂.leaveEvents c₂ ++ [.closed (.conn c₂)])) := by
          rw [← hk, ← List.append_assoc]
          exact hlog₂.trans (congrArg (· ++ _) hlog)
        refine ⟨_, newEvents_of_log hlog', ?_⟩
        intro e he
        rcases List.mem_append.mp he with hleave | hlast
        · obtain ⟨-, p, -, rfl | rfl⟩ := Phase.mem_leaveEvents.mp hleave
          · exact ⟨_, rfl⟩
          · exact ⟨_, rfl⟩
        · exact ⟨_, List.mem_singleton.mp hlast⟩
    obtain ⟨more, hnew, hmore⟩ := hfound
    rw [hnew] at hmem
    have hin := (List.mem_append.mp hmem).resolve_right fun hmem' => by
      obtain ⟨o, ho⟩ := hmore _ hmem'
      cases ho
    obtain ⟨rfl, hrecv⟩ := hmsg.takes hlog hin
    exact ⟨a, client, _, events, more, hi, hmsg, hrecv, hlog, hnew, hmore⟩

theorem Reachable.stays_empty {b b' : Broker} {inputs : List Input} (h : Reachable b)
    (hg : b.generation = generationInit) (hrun : Execution.Run Step b inputs b')
    (hnone : ∀ c d m, Event.received c d ∈ b.newEvents b' → ¬ ValidAcquire d m) :
    b'.generation = generationInit := by
  obtain ⟨labels, hledger⟩ := h.run_refines hrun
  rw [newEvents_eq hledger] at hnone
  rw [(h.run_reachable hrun).generation_eq_init]
  rw [h.generation_eq_init] at hg
  clear hrun
  generalize b'.ledger = l' at hledger
  induction hledger with
  | start => exact hg
  | @next before t events u _ last ih =>
      rw [List.flatten_append, List.flatten_singleton] at hnone
      have hprefix := ih fun c d m hmem => hnone c d m (List.mem_append_left _ hmem)
      exact last.stays_empty hprefix fun c d m hmem => hnone c d m (List.mem_append_right _ hmem)

theorem Reachable.starts_afresh {b : Broker} (h : Reachable b)
    (hg : b.generation = generationInit) : b.StartsAfresh := by
  intro inputs b' hrun hnone
  have hg' := h.stays_empty hg hrun hnone
  refine ⟨hg', ?_⟩
  intro a c d m hmem hvalid hmade
  have hb' := h.run_reachable hrun
  obtain ⟨a', client, r, events, more, hi, hmsg, hrecv, hlog, hnew, -⟩ := hb'.takes hmem
  cases hi
  rw [hg'] at hmsg
  obtain ⟨response, htype, hlog'⟩ := hmsg.starts hrecv hvalid hmade
  obtain ⟨labels, hledger⟩ := h.run_refines hrun
  have hnext : b.kernel.nextMemfd ≤ b'.kernel.nextMemfd := hledger.next_le
  refine ⟨b'.kernel.nextMemfd, response, hnext, htype, ?_⟩
  have hevents := List.append_cancel_left (hlog.symm.trans hlog')
  rw [hnew, hevents]
  simp

theorem Reachable.ready_by_creator {b : Broker} (h : Reachable b) {i : Input}
    (hbefore : b.generation.state ≠ .ready) (hafter : (b.step i).generation.state = .ready) :
    ∃ c p q d m, b.Builds c p q ∧ Holds (b.step i).kernel.fds (b.step i).generation p q ∧
      Created b.kernel.log c p q ∧ Event.received c d ∈ b.newEvents (b.step i) ∧
      brokerReceive d = .message m ∧ m.type = MessageType.ready.code := by
  have hrep := h.represents
  have hrep' := (h.step_reachable i).represents
  have hnot : ∀ p size base offset key, b.ledger.phase ≠ .published p size base offset key := by
    intro p size base offset key heq
    rw [heq] at hrep
    cases hrep with
    | published hs _ => exact hbefore hs
  generalize hph' : (b.step i).ledger.phase = ph' at hrep'
  cases hrep' with
  | empty hg => rw [hg] at hafter; cases hafter
  | building hs _ _ _ _ => rw [hs] at hafter; cases hafter
  | @published p _ hheld =>
      rcases h.step_ledger i with ⟨labels, hrun⟩ | ⟨events, hstep⟩
      · rcases Ledger.upkeeps_phase hrun with heq | hempty
        · exact absurd (heq.symm.trans hph') (hnot _ _ _ _ _)
        · rw [hempty] at hph'
          cases hph'
      · obtain ⟨c, d, m, hphase, hmem, hm, htype, -, -⟩ := hstep.publishes (hnot _ _ _ _ _) hph'
        have hdoc := h.refines.inv.documented
        rw [hphase] at hrep hdoc
        have hnew : Event.received c d ∈ b.newEvents (b.step i) := by
          rw [newEvents_eq (.single hstep), List.flatten_singleton]
          exact hmem
        generalize hsize : (b.step i).generation.mappingSize = size at hrep
        generalize hkey : (b.step i).generation.cacheKey = key at hrep
        cases hrep with
        | building hs hpq hc _ _ =>
            exact ⟨c, p, p + 1, d, m, ⟨hs, hc, hpq⟩, hheld, hdoc.2.1, hnew, hm, htype⟩

theorem Reachable.others_excluded {b : Broker} (h : Reachable b) {c c' : ConnId} {p q : Nat}
    {m : MessageV1} (hbuilds : b.Builds c p q) (hgiven : Given b.kernel.log c' m p q) : c' = c := by
  obtain ⟨-, hheld | ⟨hretired, -⟩⟩ := h.refines.custody.given c' m p q hgiven
  · rw [hbuilds.phase] at hheld
    exact hheld.1.symm
  · exact absurd rfl (hretired.2 p (by rw [hbuilds.phase]; rfl)).1

theorem Reachable.others_when_ready {b : Broker} (h : Reachable b) {i : Input} {c : ConnId}
    {m : MessageV1} {p q : Nat}
    (hmem : Event.sent c m [.memfd p, .memfd q] ∈ b.newEvents (b.step i)) :
    Created (b.step i).kernel.log c p q ∨
      b.generation.state = .ready ∧ Holds b.kernel.fds b.generation p q := by
  have hlog : Event.sent c m [.memfd p, .memfd q] ∈ (b.step i).ledger.log :=
    List.mem_of_mem_drop hmem
  obtain rfl : q = p + 1 := by
    obtain hnil | ⟨p', hp', -⟩ :=
      (h.step_reachable i).refines.inv.records.pairs c m _ (.inl hlog)
    · cases hnil
    · cases hp'
      rfl
  rcases h.step_ledger i with ⟨labels, hup⟩ | ⟨events, hstep⟩
  · rw [newEvents_eq (Ledger.upkeeps_run hup)] at hmem
    cases Ledger.upkeeps_bare hup c m _ (.inl hmem)
  · rw [newEvents_eq (.single hstep), List.flatten_singleton] at hmem
    rcases hstep.hands_out hmem with hcreate | ⟨size, base, offset, key, hph⟩
    · exact .inl ⟨m, hlog, hcreate⟩
    · have hrep := h.represents
      rw [hph] at hrep
      cases hrep with
      | published hs hheld => exact .inr ⟨hs, hheld⟩

theorem Reachable.discarded {b : Broker} (h : Reachable b) {i : Input} {c : ConnId} {p q : Nat}
    (hloses : b.Loses i c p q) :
    (b.step i).generation = generationInit ∧ (b.step i).Buried p ∧ (b.step i).Buried q ∧
      (b.step i).StartsAfresh := by
  have hb' := h.step_reachable i
  obtain ⟨hempty, rfl, hnext⟩ : (b.step i).ledger.phase = .empty ∧ q = p + 1 ∧
      p + 1 < (b.step i).ledger.next := by
    rcases hloses with ⟨hbuilds, hready, hgone⟩ | ⟨m, htype, hanswer⟩
    · obtain rfl := h.tidied.consecutive p q hbuilds.held
      have hheld := h.refines.inv.held p (by rw [hbuilds.phase]; rfl)
      obtain ⟨labels, hrun⟩ := h.step_refines i
      refine ⟨?_, rfl, Nat.lt_of_lt_of_le hheld hrun.next_le⟩
      rcases h.step_ledger i with ⟨labels', hup⟩ | ⟨events, hstep⟩
      · rw [newEvents_eq (Ledger.upkeeps_run hup)] at hgone
        exact Ledger.upkeeps_given_up h.refines.inv hup hbuilds.phase hgone
      · rw [newEvents_eq (.single hstep), List.flatten_singleton] at hgone
        rcases hstep.given_up h.refines.inv hbuilds.phase hgone with hempty | ⟨base, offset, hph⟩
        · exact hempty
        · have hrep := hb'.represents
          rw [hph] at hrep
          generalize b.generation.mappingSize = size at hrep
          generalize b.generation.cacheKey = key at hrep
          cases hrep with
          | published hs _ => exact absurd hs hready
    · have hlog : Event.sent c m [.memfd p, .memfd q] ∈ (b.step i).ledger.log ∨
          Event.unsent c m [.memfd p, .memfd q] ∈ (b.step i).ledger.log :=
        hanswer.symm.imp (fun hsent => List.mem_of_mem_drop hsent.1) List.mem_of_mem_drop
      obtain hnil | ⟨p', hp', hlt⟩ := hb'.refines.inv.records.pairs c m _ hlog
      · cases hnil
      · cases hp'
        refine ⟨?_, rfl, hlt⟩
        rcases h.step_ledger i with ⟨labels', hup⟩ | ⟨events, hstep⟩
        · rw [newEvents_eq (Ledger.upkeeps_run hup)] at hanswer
          have hnone := Ledger.upkeeps_bare hup c m _ (hanswer.symm.imp_left And.left)
          cases hnone
        · rw [newEvents_eq (.single hstep), List.flatten_singleton] at hanswer
          rcases hanswer with hunsent | ⟨hsent, hclosed⟩
          · exact hstep.unsent_create hunsent htype
          · exact hstep.closed_create hsent htype hclosed
  have hretired : ∀ n, n ≤ p + 1 → (b.step i).ledger.Retired n := by
    intro n hn
    refine ⟨Nat.lt_of_le_of_lt hn hnext, ?_⟩
    intro p' hp'
    rw [hempty] at hp'
    cases hp'
  have hinit := hb'.generation_eq_init.mpr hempty
  exact ⟨hinit, hb'.buried (hretired p (Nat.le_succ p)), hb'.buried (hretired (p + 1) le_rfl),
    hb'.starts_afresh hinit⟩

end Broker

end Hyperglyph
