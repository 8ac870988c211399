import Mathlib.Data.Finset.Card
import Hyperglyph.Broker.Dispatch
import Hyperglyph.Broker.Handover

/-! `--max-clients`. The loop counts a connection when its first well-framed message was handled,
stops accepting when the count is full, sends away those who have not spoken, and goes on
serving the others. -/
namespace Hyperglyph

/-- The connection of which the event handled a well-framed message. -/
def Event.speaker? : Event → Option ConnId
  | .received c d =>
      match brokerReceive d with
      | .message _ => some c
      | _ => none
  | _ => none

/-- The connections that have had a well-framed message handled. -/
def speakers (log : List Event) : Finset ConnId := (log.filterMap Event.speaker?).toFinset

section Speakers

variable {log events : List Event} {c : ConnId} {d : List UInt8} {m : MessageV1}

theorem speaker?_eq_some {e : Event} :
    e.speaker? = some c ↔ ∃ d m, e = .received c d ∧ brokerReceive d = .message m := by
  cases e with
  | received c' d =>
      simp only [Event.speaker?]
      cases hm : brokerReceive d with
      | message m =>
          simp only [Option.some.injEq, Event.received.injEq]
          constructor
          · rintro rfl
            exact ⟨d, m, ⟨rfl, rfl⟩, hm⟩
          · rintro ⟨d', m', ⟨rfl, -⟩, -⟩
            rfl
      | closed | bad =>
          simp only [reduceCtorEq, false_iff]
          rintro ⟨d', m', heq, hm'⟩
          cases heq
          rw [hm] at hm'
          cases hm'
  | _ => simp [Event.speaker?]

theorem mem_speakers : c ∈ speakers log ↔
    ∃ d m, Event.received c d ∈ log ∧ brokerReceive d = .message m := by
  simp only [speakers, List.mem_toFinset, List.mem_filterMap, speaker?_eq_some]
  constructor
  · rintro ⟨e, hmem, d, m, rfl, hm⟩
    exact ⟨d, m, hmem, hm⟩
  · rintro ⟨d, m, hmem, hm⟩
    exact ⟨_, hmem, d, m, rfl, hm⟩

theorem speakers_append : speakers (log ++ events) = speakers log ∪ speakers events := by
  simp only [speakers, List.filterMap_append, List.toFinset_append]

/-- Nobody speaks in these events. -/
theorem speakers_of_unheard (h : ∀ c d, Event.received c d ∉ events) : speakers events = ∅ := by
  apply Finset.eq_empty_of_forall_notMem
  intro c hc
  obtain ⟨d, m, hmem, -⟩ := mem_speakers.mp hc
  exact h c d hmem

theorem speakers_heard (hm : brokerReceive d = .message m)
    (h : ∀ c d, Event.received c d ∉ events) : speakers (.received c d :: events) = {c} := by
  have hfirst : speakers [.received c d] = {c} := by
    simp [speakers, Event.speaker?, hm]
  calc speakers (.received c d :: events)
      _ = speakers ([.received c d] ++ events) := rfl
      _ = speakers [.received c d] ∪ speakers events := speakers_append
      _ = {c} := by rw [hfirst, speakers_of_unheard h, Finset.union_empty]

end Speakers

/-- A message makes its sender a speaker when the flag is set, and nobody else. -/
theorem HandleMessage.speaks {k : Kernel} {client : ClientConnection} {c : ConnId} {g : Generation}
    {a : Answers} {r : Kernel × ClientConnection × Generation × Bool}
    (hmsg : HandleMessage k client c g a r) :
    ∃ events, r.1.log = k.log ++ events ∧ (∀ c' d, Event.received c' d ∈ events → c' = c) ∧
      (∀ c', Event.accepted c' ∉ events) ∧
      (r.2.1.handledMessage = true ∧ speakers events = {c} ∨
        r.2.1 = client ∧ speakers events = ∅) := by
  cases hmsg with
  | failed =>
      refine ⟨[], (List.append_nil _).symm, ?_, ?_, .inr ⟨rfl, rfl⟩⟩
      · simp
      · simp
  | dropped d _ hbad =>
      refine ⟨_, rfl, ?_, ?_, .inr ⟨rfl, ?_⟩⟩
      · simp
      · simp
      · apply Finset.eq_empty_of_forall_notMem
        intro c' hc'
        obtain ⟨d', m, hmem, hm⟩ := mem_speakers.mp hc'
        cases List.mem_singleton.mp hmem
        exact hbad m hm
  | plain d m reply keep _ hm =>
      exact ⟨_, rfl, by simp, by simp, .inl ⟨rfl, speakers_heard hm (by simp)⟩⟩
  | shared d m p q _ hm =>
      exact ⟨_, rfl, by simp, by simp, .inl ⟨rfl, speakers_heard hm (by simp)⟩⟩
  | created d m cacheFd lockFd _ hm =>
      exact ⟨_, List.append_assoc _ _ _, by simp, by simp, .inl ⟨rfl, speakers_heard hm (by simp)⟩⟩
  | notCreated d m made _ hm =>
      refine ⟨_, (by simp only [Kernel.emit, Kernel.discarded, List.append_assoc]; rfl), ?_, ?_,
        .inl ⟨rfl, speakers_heard hm ?_⟩⟩
      · simp
      · simp
      · simp
  | published d m _ hm =>
      exact ⟨_, rfl, by simp, by simp, .inl ⟨rfl, speakers_heard hm (by simp)⟩⟩
  | aborted d m p q _ hm =>
      exact ⟨_, rfl, by simp, by simp, .inl ⟨rfl, speakers_heard hm (by simp)⟩⟩

/-- What the peer sent ends its connection, or the reply could not be sent. -/
def Answers.Ends (a : Answers) : Prop :=
  a.recv = .error ∨ a.sent = false ∨ ∃ d, a.recv = .datagram d ∧
    ∀ m, brokerReceive d = .message m → m.type ≠ MessageType.acquire.code ∧
      m.type ≠ MessageType.ready.code ∧ m.type ≠ MessageType.abort.code

theorem PlainReply.ends {g : Generation} {fd : Fd} {m : MessageV1} {sent : Bool}
    {reply : MessageType} (h : PlainReply g fd m sent reply false) :
    sent = false ∨ m.type ≠ MessageType.acquire.code ∧ m.type ≠ MessageType.ready.code ∧
      m.type ≠ MessageType.abort.code := by
  cases h with
  | declined | rejected | ignored => exact .inl rfl
  | unacknowledged _ _ hsent => exact .inl hsent
  | detached htype =>
      right
      rw [htype]
      decide
  | unknown hacquire hready habort => exact .inr ⟨hacquire, hready, habort⟩

/-- A connection is given up for its own datagram or reply only. -/
theorem HandleMessage.ends {k : Kernel} {client : ClientConnection} {c : ConnId} {g : Generation}
    {a : Answers} {r : Kernel × ClientConnection × Generation × Bool}
    (hmsg : HandleMessage k client c g a r) (hkeep : r.2.2.2 = false) : a.Ends := by
  cases hmsg with
  | failed hrecv => exact .inl hrecv
  | dropped d hrecv hbad =>
      exact .inr (.inr ⟨d, hrecv, fun m hm => absurd hm (hbad m)⟩)
  | plain d m reply keep hrecv hm hreply =>
      cases hkeep
      rcases hreply.ends with hsent | htype
      · exact .inr (.inl hsent)
      · refine .inr (.inr ⟨d, hrecv, ?_⟩)
        intro m' hm'
        rw [hm] at hm'
        cases hm'
        exact htype
  | shared | created | notCreated | aborted => exact .inr (.inl hkeep)
  | published => cases hkeep

namespace Broker

variable {b b' : Broker} {client : ClientConnection} {index : Nat}

/-- The flag of each client tells whether its connection has spoken. -/
structure Flagged (b : Broker) : Prop where
  heard : ∀ c d, Event.received c d ∈ b.kernel.log → Event.accepted c ∈ b.kernel.log
  flags : ∀ client ∈ b.clients, ∀ c, b.kernel.fds.get client.fd = some (.conn c) →
    (client.handledMessage = true ↔ c ∈ speakers b.kernel.log)

theorem flagged_start (maxClients listenerFd : Nat) : (start maxClients listenerFd).Flagged where
  heard := by simp [start]
  flags := by simp [start]

theorem Flagged.spoke_accepted (h : b.Flagged) {c : ConnId} (hc : c ∈ speakers b.kernel.log) :
    Event.accepted c ∈ b.kernel.log := by
  obtain ⟨d, m, hmem, -⟩ := mem_speakers.mp hc
  exact h.heard c d hmem

/-- Nothing was heard, and the clients that are left are as they were. -/
theorem Flagged.quiet (h : b.Flagged) {events : List Event}
    (hlog : b'.kernel.log = b.kernel.log ++ events) (hunheard : ∀ c d, Event.received c d ∉ events)
    (hclients : ∀ client ∈ b'.clients, ∀ c, b'.kernel.fds.get client.fd = some (.conn c) →
      client ∈ b.clients ∧ b.kernel.fds.get client.fd = some (.conn c) ∨
        client.handledMessage = false ∧ Event.accepted c ∉ b.kernel.log) : b'.Flagged := by
  have hspeakers : speakers b'.kernel.log = speakers b.kernel.log := by
    rw [hlog, speakers_append, speakers_of_unheard hunheard, Finset.union_empty]
  constructor
  · intro c d hmem
    rw [hlog] at hmem ⊢
    rcases List.mem_append.mp hmem with hold | hnew
    · exact List.mem_append_left _ (h.heard c d hold)
    · exact absurd hnew (hunheard c d)
  · intro client hmem c hc
    rw [hspeakers]
    rcases hclients client hmem c hc with ⟨hold, hget⟩ | ⟨hflag, hfresh⟩
    · exact h.flags client hold c hget
    · rw [hflag]
      constructor
      · intro hfalse
        cases hfalse
      · intro hspoke
        exact absurd (h.spoke_accepted hspoke) hfresh

theorem Flagged.upkeep (h : b.Flagged) (hinv : b.Inv) (ht : b.Tidied) (hmove : Upkeep b b') :
    b'.Flagged := by
  obtain ⟨-, events, hstep⟩ := hmove.refines hinv ht
  have hlog : b'.kernel.log = b.kernel.log ++ events := hstep.log_eq
  refine h.quiet hlog hstep.handles_nothing ?_
  intro client hmem c hc
  cases hmove with
  | control hk hclients =>
      rw [hclients] at hmem
      rw [hk] at hc
      exact .inl ⟨hmem, hc⟩
  | @close index hindex =>
      have hrest : client ∈ SwapRemove.swapRemove b.clients index := by
        have heq := (desk_closeClient (List.getElem?_eq_getElem hindex)).2
        rwa [heq] at hmem
      exact .inl ⟨SwapRemove.mem_of_mem_swapRemove hindex hrest,
        (closeClient_shrinks b index).fds _ _ hc⟩
  | closeListener =>
      have hsame : b.closeListener.clients = b.clients := by
        unfold closeListener
        split <;> rfl
      rw [hsame] at hmem
      exact .inl ⟨hmem, (closeListener_shrinks b).fds _ _ hc⟩
  | @accept n c' hn hfresh =>
      have hget : (b.kernel.fds.install n (.conn c')).get client.fd = some (.conn c) := hc
      rcases List.mem_append.mp hmem with hold | hnew
      · obtain ⟨c'', hopen⟩ := hinv.clients_open client hold
        have hkept : (b.kernel.fds.install n (.conn c')).get client.fd = some (.conn c'') :=
          DescriptorTable.get_install_of_open hn hopen
        rw [hget] at hkept
        cases hkept
        exact .inl ⟨hold, hopen⟩
      · rw [List.mem_singleton.mp hnew, DescriptorTable.get_install_self] at hget
        cases hget
        rw [List.mem_singleton.mp hnew]
        exact .inr ⟨rfl, hfresh⟩
  | @refuse n c' hn hfresh =>
      rw [Kernel.close_fds] at hc
      have hsame : (b.kernel.withConn n c').fds.remove n = b.kernel.fds :=
        DescriptorTable.remove_install hn _
      rw [hsame] at hc
      exact .inl ⟨hmem, hc⟩
  | reset hnone =>
      rw [hnone] at hmem
      cases hmem

/-- A message served sets the flag of its sender and changes nobody else's. -/
theorem Flagged.serveClient (h : b.Flagged) (hinv : b.Inv) (ht : b.Tidied)
    (hindex : b.clients[index]? = some client) (a : Answers) :
    (b.serveClient index client a).1.Flagged := by
  obtain ⟨c, hc, hmsg⟩ := hinv.served hindex a
  obtain ⟨events, hlog, hown, -, hspeaks⟩ := hmsg.speaks
  have hlog' : (b.serveClient index client a).1.kernel.log = b.kernel.log ++ events := hlog
  have hlt : index < b.clients.length := (List.getElem?_eq_some_iff.mp hindex).1
  constructor
  · intro c' d hmem
    rw [hlog'] at hmem ⊢
    apply List.mem_append_left
    rcases List.mem_append.mp hmem with hold | hnew
    · exact h.heard c' d hold
    · rw [hown c' d hnew]
      exact (ht.conn_open _ c hc).1
  · intro other hmem c' hc'
    have hopened : b.kernel.fds.get other.fd = some (.conn c') := by
      rcases hmsg.opens_memfds hc' with hsame | ⟨-, n, heq⟩
      · exact hsame
      · cases heq
    rw [hlog', speakers_append, Finset.mem_union]
    obtain ⟨i, hi⟩ := List.mem_iff_getElem?.mp hmem
    have hset : (b.clients.set index
        (brokerHandleClientMessage b.kernel client b.generation a).2.1)[i]? = some other := hi
    by_cases heq : index = i
    · -- the client that was served
      rw [← heq, List.getElem?_set_self hlt, Option.some_inj] at hset
      rw [← hset] at hopened ⊢
      rw [hmsg.served_fd, hc] at hopened
      cases hopened
      rcases hspeaks with ⟨hflag, hspoke⟩ | ⟨hsame, hsilent⟩
      · rw [hflag, hspoke]
        simp
      · rw [hsame, hsilent]
        simpa using h.flags client (List.mem_of_getElem? hindex) c hc
    · rw [List.getElem?_set_ne heq] at hset
      have hne : c' ≠ c := by
        rintro rfl
        have hfd := ht.conn_once _ _ c' hopened hc
        exact heq (hinv.onlySlot hindex i other hset hfd).symm
      rw [h.flags other (List.mem_of_getElem? hset) c' hopened]
      constructor
      · exact .inl
      · rintro (hold | hnew)
        · exact hold
        · rcases hspeaks with ⟨-, hspoke⟩ | ⟨-, hsilent⟩
          · rw [hspoke, Finset.mem_singleton] at hnew
            exact absurd hnew hne
          · rw [hsilent] at hnew
            cases hnew

theorem Flagged.move (h : b.Flagged) (hinv : b.Inv) (ht : b.Tidied) (hmove : Move b b') :
    b'.Flagged := by
  cases hmove with
  | upkeep hupkeep => exact h.upkeep hinv ht hupkeep
  | serve a hindex _ => exact h.serveClient hinv ht hindex a
  | @serveClose index client a hindex =>
      obtain ⟨c, hc, hmsg⟩ := hinv.served hindex a
      have hlt : index < (b.serveClient index client a).1.clients.length := by
        rw [Broker.serveClient, List.length_set]
        exact (List.getElem?_eq_some_iff.mp hindex).1
      exact (h.serveClient hinv ht hindex a).upkeep (hinv.serveClient hindex a) (hmsg.tidy ht)
        (.close hlt)

theorem Reachable.flagged (h : Reachable b) : b.Flagged := by
  refine (h.moves_invariant (I := fun b => b.Inv ∧ b.Tidied ∧ b.Flagged) ?_ ?_).2.2
  · exact fun maxClients listenerFd => ⟨inv_start maxClients listenerFd,
      tidied_start maxClients listenerFd, flagged_start maxClients listenerFd⟩
  · rintro b b' ⟨hinv, ht, hflagged⟩ hmove
    exact ⟨hinv.move hmove, (hmove.refines hinv ht).1, hflagged.move hinv ht hmove⟩

/-! ### The count -/

theorem Upkeep.speakers_eq (hmove : Upkeep b b') (hinv : b.Inv) (ht : b.Tidied) :
    speakers b'.kernel.log = speakers b.kernel.log := by
  obtain ⟨-, events, hstep⟩ := hmove.refines hinv ht
  have hlog : b'.kernel.log = b.kernel.log ++ events := hstep.log_eq
  rw [hlog, speakers_append, speakers_of_unheard hstep.handles_nothing, Finset.union_empty]

theorem Upkeeps.speakers_eq (h : Upkeeps b b') (hinv : b.Inv) (ht : b.Tidied) :
    speakers b'.kernel.log = speakers b.kernel.log := by
  induction h with
  | refl => rfl
  | tail hmoves hlast ih =>
      obtain ⟨hinv', ht', -⟩ := Upkeeps.refines hmoves hinv ht
      exact (hlast.speakers_eq hinv' ht').trans ih

theorem step_maxClients (b : Broker) (i : Input) : (b.step i).maxClients = b.maxClients := by
  rcases step_cases b i with ⟨-, hsame⟩ | ⟨a, b', -, -, -, -, -, hsame, index, client, -, -, hserve⟩
  · exact hsame.maxClients
  · rw [hsame.maxClients]
    rcases hserve with ⟨-, rfl⟩ | rfl <;> rfl

/-- `handled_clients` counts the connections that have spoken, and no more than the limit. -/
structure Counted (b : Broker) : Prop where
  counted : b.handledClients = (speakers b.kernel.log).card
  bounded : b.handledClients ≤ b.maxClients

theorem limitReached_eq_false (hlimited : b.maxClients ≠ 0) :
    b.limitReached = false ↔ b.handledClients < b.maxClients := by
  simp [limitReached, hlimited]

/-- The count goes up exactly with the first message of a connection. -/
theorem Counted.serveClient (h : b.Counted) (hflagged : b.Flagged) (hinv : b.Inv)
    (hlimited : b.maxClients ≠ 0) (hulong : b.maxClients ≤ ulongMax)
    (hindex : b.clients[index]? = some client)
    (hguard : (b.limitReached && !client.handledMessage) = false) (a : Answers) :
    (b.serveClient index client a).1.Counted := by
  obtain ⟨c, hc, hmsg⟩ := hinv.served hindex a
  obtain ⟨events, hlog, -, -, hspeaks⟩ := hmsg.speaks
  have hlog' : (b.serveClient index client a).1.kernel.log = b.kernel.log ++ events := hlog
  have hflag := hflagged.flags client (List.mem_of_getElem? hindex) c hc
  have hsame : (b.serveClient index client a).1.handledClients = b.handledClients →
      speakers events ⊆ speakers b.kernel.log → (b.serveClient index client a).1.Counted := by
    intro hcount hsub
    constructor
    · rw [hcount, hlog', speakers_append, Finset.union_eq_left.mpr hsub]
      exact h.counted
    · rw [hcount]
      exact h.bounded
  cases hspoken : client.handledMessage with
  | true =>
      apply hsame
      · simp [Broker.serveClient, hspoken]
      · rcases hspeaks with ⟨-, hspoke⟩ | ⟨-, hsilent⟩
        · rw [hspoke, Finset.singleton_subset_iff]
          exact hflag.mp hspoken
        · rw [hsilent]
          exact Finset.empty_subset _
  | false =>
      rw [hspoken, Bool.not_false, Bool.and_true, limitReached_eq_false hlimited] at hguard
      rcases hspeaks with ⟨hserved, hspoke⟩ | ⟨hserved, hsilent⟩
      · have hnew : c ∉ speakers b.kernel.log := by
          rw [← hflag, hspoken]
          exact Bool.false_ne_true
        have hroom : b.handledClients < ulongMax := by omega
        have hcount : (b.serveClient index client a).1.handledClients = b.handledClients + 1 := by
          simp [Broker.serveClient, hspoken, hserved, hroom]
        constructor
        · rw [hcount, hlog', speakers_append, hspoke, Finset.union_comm,
            ← Finset.insert_eq, Finset.card_insert_of_notMem hnew, h.counted]
        · rw [hcount]
          exact hguard
      · apply hsame
        · simp [Broker.serveClient, hserved]
        · rw [hsilent]
          exact Finset.empty_subset _

theorem Counted.step (h : b.Counted) (hreach : Reachable b) (hlimited : b.maxClients ≠ 0)
    (hulong : b.maxClients ≤ ulongMax) (i : Input) : (b.step i).Counted := by
  have hinv := hreach.inv
  have ht := hreach.tidied
  rcases step_cases b i with ⟨hupkeep, hcount⟩ |
    ⟨a, b', -, -, hkernel, -, -, hcount, index, client, hindex, hguard, hserve⟩
  · constructor
    · rw [hcount.handledClients, hupkeep.speakers_eq hinv ht]
      exact h.counted
    · rw [hcount.handledClients, step_maxClients]
      exact h.bounded
  · have hserved := h.serveClient hreach.flagged hinv hlimited hulong hindex hguard a
    constructor
    · rw [← hkernel, hcount.handledClients]
      rcases hserve with ⟨-, rfl⟩ | rfl
      · exact hserved.counted
      · obtain ⟨c, -, hmsg⟩ := hinv.served hindex a
        rw [Upkeeps.speakers_eq (upkeeps_close _ index) (hinv.serveClient hindex a) (hmsg.tidy ht)]
        exact hserved.counted
    · rw [hcount.handledClients, step_maxClients]
      rcases hserve with ⟨-, rfl⟩ | rfl
      · exact hserved.bounded
      · exact hserved.bounded

theorem Reachable.counted (h : Reachable b) (hlimited : b.maxClients ≠ 0)
    (hulong : b.maxClients ≤ ulongMax) : b.Counted := by
  refine Execution.Reachable.invariant_with (I := fun b : Broker =>
    b.maxClients ≠ 0 → b.maxClients ≤ ulongMax → b.Counted) ?_ ?_ h hlimited hulong
  · rintro b ⟨maxClients, listenerFd, rfl⟩ - -
    exact ⟨rfl, Nat.zero_le _⟩
  · rintro b i b' hreach hb rfl hlimited hulong
    rw [step_maxClients] at hlimited hulong
    exact (hb hlimited hulong).step hreach hlimited hulong i

/-! ### Once the limit is reached -/

theorem Shrinks.silent (h : b.Shrinks b') : ∃ events, b'.kernel.log = b.kernel.log ++ events ∧
    (∀ c, Event.accepted c ∉ events) ∧ ∀ c d, Event.received c d ∉ events := by
  obtain ⟨events, hlog, hclosings⟩ := h.log
  refine ⟨events, hlog, ?_, ?_⟩
  · intro c hmem
    rcases hclosings _ hmem with ⟨o, heq⟩ | ⟨fd, heq⟩ <;> cases heq
  · intro c d hmem
    rcases hclosings _ hmem with ⟨o, heq⟩ | ⟨fd, heq⟩ <;> cases heq

/-- The limit lets in no one, and only those are heard who have spoken. -/
theorem Reachable.limited_log (h : Reachable b) (hlimit : b.limitReached = true) (i : Input) :
    ∃ events, (b.step i).kernel.log = b.kernel.log ++ events ∧
      (∀ c, Event.accepted c ∉ events) ∧
      ∀ c d, Event.received c d ∈ events → c ∈ speakers b.kernel.log := by
  have hsilent : ∀ b', b.Shrinks b' → ∃ events, b'.kernel.log = b.kernel.log ++ events ∧
      (∀ c, Event.accepted c ∉ events) ∧
      ∀ c d, Event.received c d ∈ events → c ∈ speakers b.kernel.log := by
    intro b' hshrinks
    obtain ⟨events, hlog, haccepted, hreceived⟩ := hshrinks.silent
    exact ⟨events, hlog, haccepted, fun c d hmem => absurd hmem (hreceived c d)⟩
  rcases step_shrinks b i with hshrinks | ⟨a, index, fds, rfl, hpc⟩ | ⟨a, events, -, -, hopen⟩
  · exact hsilent _ hshrinks
  · simp only [step, hpc]
    rcases dispatchClient_cases b index ((fds[index + 1]?).elim .clear (·.revents)) a with
      hsame | hclose | ⟨client, hindex, hguard, hserve⟩
    · rw [hsame]
      exact hsilent b (.refl _)
    · rw [hclose]
      exact hsilent _ (closeClient_shrinks b index)
    · obtain ⟨c, hc, hmsg⟩ := h.inv.served hindex a
      obtain ⟨events, hlog, hown, haccepted, -⟩ := hmsg.speaks
      rw [hlimit, Bool.true_and, Bool.not_eq_false'] at hguard
      have hspoke : c ∈ speakers b.kernel.log :=
        (h.flagged.flags client (List.mem_of_getElem? hindex) c hc).mp hguard
      rcases hserve with ⟨-, heq⟩ | heq
      · rw [heq]
        exact ⟨events, hlog, haccepted, fun c' d hmem => hown c' d hmem ▸ hspoke⟩
      · rw [heq]
        obtain ⟨closings, hlog', haccepted', hreceived'⟩ := (closeClient_shrinks
          (b.serveClient index client a).1 index).silent
        have hserved : (b.serveClient index client a).1.kernel.log = b.kernel.log ++ events := hlog
        refine ⟨events ++ closings, ?_, ?_, ?_⟩
        · rw [hlog', hserved, List.append_assoc]
        · intro c' hmem
          exact (List.mem_append.mp hmem).elim (haccepted c') (haccepted' c')
        · intro c' d hmem
          rcases List.mem_append.mp hmem with hnew | hnew
          · exact hown c' d hnew ▸ hspoke
          · exact absurd hnew (hreceived' c' d)
  · rw [hlimit] at hopen
    cases hopen

/-- Since the limit was reached in `b`, no connection was added and only those who had spoken
by then were heard. -/
structure Exclusive (b b' : Broker) : Prop where
  reached : b'.limitReached = true
  accepted : ∀ c, Event.accepted c ∈ b'.kernel.log → Event.accepted c ∈ b.kernel.log
  heard : ∀ c d, Event.received c d ∈ b'.kernel.log →
    Event.received c d ∈ b.kernel.log ∨ c ∈ speakers b.kernel.log
  speakers : speakers b'.kernel.log = speakers b.kernel.log

theorem Reachable.exclusive_step (h : Reachable b) (hlimited : b.maxClients ≠ 0)
    (hulong : b.maxClients ≤ ulongMax) (hlimit : b.limitReached = true) (i : Input) :
    b.Exclusive (b.step i) := by
  obtain ⟨events, hlog, haccepted, hreceived⟩ := h.limited_log hlimit i
  have hspeakers : speakers (b.step i).kernel.log = speakers b.kernel.log := by
    rw [hlog, speakers_append, Finset.union_eq_left]
    intro c hc
    obtain ⟨d, m, hmem, -⟩ := mem_speakers.mp hc
    exact hreceived c d hmem
  constructor
  · have hcount := (h.counted hlimited hulong).counted
    have hcount' := ((h.counted hlimited hulong).step h hlimited hulong i).counted
    rw [hspeakers, ← hcount] at hcount'
    simpa only [limitReached, hcount', step_maxClients] using hlimit
  · intro c hmem
    rw [hlog] at hmem
    exact (List.mem_append.mp hmem).resolve_right (haccepted c)
  · intro c d hmem
    rw [hlog] at hmem
    exact (List.mem_append.mp hmem).imp id (hreceived c d)
  · exact hspeakers

theorem Reachable.exclusive (h : Reachable b) (hlimited : b.maxClients ≠ 0)
    (hulong : b.maxClients ≤ ulongMax) (hlimit : b.limitReached = true) {inputs : List Input}
    (hrun : Execution.Run Step b inputs b') :
    b.Exclusive b' ∧ b'.maxClients = b.maxClients := by
  induction hrun with
  | start => exact ⟨⟨hlimit, fun _ => id, fun _ _ => .inl, rfl⟩, rfl⟩
  | @next inputs b' i b'' hrun hlast ih =>
      obtain ⟨hsince, hmax⟩ := ih
      cases hlast
      rw [← hmax] at hlimited hulong
      have hstep := (h.run_reachable hrun).exclusive_step hlimited hulong hsince.reached i
      refine ⟨?_, (step_maxClients b' i).trans hmax⟩
      constructor
      · exact hstep.reached
      · exact fun c hmem => hsince.accepted c (hstep.accepted c hmem)
      · intro c d hmem
        rcases hstep.heard c d hmem with hold | hspoke
        · exact hsince.heard c d hold
        · exact .inr (hsince.speakers ▸ hspoke)
      · exact hstep.speakers.trans hsince.speakers

/-! ### Those who never spoke -/

/-- The generation is what it was, and its memfds are open. -/
structure KeepsGeneration (b b' : Broker) : Prop where
  generation : b'.generation = b.generation
  memfds : ∀ fd n, b.kernel.fds.get fd = some (.memfd n) → b'.kernel.fds.get fd = some (.memfd n)

theorem KeepsGeneration.trans {b'' : Broker} (h : b.KeepsGeneration b')
    (h' : b'.KeepsGeneration b'') : b.KeepsGeneration b'' :=
  ⟨h'.generation.trans h.generation, fun fd n hn => h'.memfds fd n (h.memfds fd n hn)⟩

/-- The creator of a generation has spoken, so nobody else takes it along. -/
theorem Inv.close_unspoken (h : b.Inv) (hindex : b.clients[index]? = some client)
    (hflag : client.handledMessage = false) : b.KeepsGeneration (b.closeClient index) := by
  have hother : ¬ (b.generation.state = .initializing ∧ b.generation.creatorFd = client.fd) := by
    rintro ⟨hstate, hcreator⟩
    obtain ⟨creator, hmem, hfd, hspoken⟩ := h.generation.creator hstate
    obtain ⟨i, hi⟩ := List.mem_iff_getElem?.mp hmem
    have hsame := h.onlySlot hindex i creator hi (hfd.trans hcreator)
    rw [hsame, hindex] at hi
    cases hi
    rw [hflag] at hspoken
    cases hspoken
  obtain ⟨c, hc⟩ := h.clients_open client (List.mem_of_getElem? hindex)
  have hclose : b.closeClient index = { b with
      kernel := b.kernel.close client.fd
      clients := SwapRemove.swapRemove b.clients index } := by
    simp only [Broker.closeClient, brokerCloseClient, hindex, if_neg hother]
  rw [hclose]
  refine ⟨rfl, ?_⟩
  intro fd n hn
  rw [Kernel.close_fds, DescriptorTable.get_remove_of_ne, hn]
  rintro rfl
  rw [hc] at hn
  cases hn

theorem Inv.evict_unspoken (n : Nat) (h : b.Inv) : b.KeepsGeneration (b.evict n) := by
  induction n generalizing b with
  | zero => exact ⟨rfl, fun _ _ => id⟩
  | succ index ih =>
      unfold evict
      split
      · next client hindex =>
          split
          · exact ih h
          · next hflag =>
              exact (h.close_unspoken hindex (Bool.not_eq_true _ ▸ hflag)).trans
                (ih (h.closeClient index))
      · exact ih h

theorem Inv.beforePoll_keeps (h : b.Inv) : b.KeepsGeneration b.beforePoll := by
  have hlistener : b.KeepsGeneration b.closeListener := by
    unfold closeListener
    split
    · next hpos =>
        refine ⟨rfl, ?_⟩
        intro fd n hn
        rw [Kernel.close_fds, DescriptorTable.get_remove_of_ne, hn]
        rintro rfl
        rw [h.listener_open hpos] at hn
        cases hn
    · exact ⟨rfl, fun _ _ => id⟩
  unfold Broker.beforePoll
  split
  · exact hlistener.trans (Inv.evict_unspoken _ (h.upkeep (.closeListener b)))
  · exact ⟨rfl, fun _ _ => id⟩

/-! ### Those who have spoken -/

/-- In its own turn the client's connection ends: it hung up, or its datagram or the reply to
it was the last. -/
inductive OwnEnd (b : Broker) : Input → ClientConnection → Prop
  | hungUp {client : ClientConnection} {index : Nat} {fds : List PollFd} {entry : PollFd}
      (a : Answers) : b.pc = .dispatch (index + 1) fds → b.clients[index]? = some client →
      fds[index + 1]? = some entry → entry.fd = client.fd → entry.revents.failed = true →
      OwnEnd b (.dispatch a) client
  | message {client : ClientConnection} {index : Nat} {fds : List PollFd} {entry : PollFd}
      (a : Answers) : b.pc = .dispatch (index + 1) fds → b.clients[index]? = some client →
      fds[index + 1]? = some entry → entry.fd = client.fd → entry.revents.pollin = true → a.Ends →
      OwnEnd b (.dispatch a) client

/-- The clients whose turn is still to come are those the entries were made for. -/
def PolledOwn (b : Broker) : Prop :=
  match b.pc with
  | .dispatch n fds => ∀ index client, index < n → b.clients[index]? = some client →
      ∃ entry, fds[index + 1]? = some entry ∧ entry.fd = client.fd
  | _ => True

theorem growAndPoll_polledOwn (b : Broker) (reallocated : Bool) (poll : PollAnswer) :
    (b.growAndPoll reallocated poll).PolledOwn := by
  unfold growAndPoll
  split
  · trivial
  · dsimp only
    split
    · trivial
    · cases poll with
      | interrupted => trivial
      | error => trivial
      | ready revents =>
          intro index client _ hindex
          exact ⟨_, pollFds_succ b revents hindex, rfl⟩

theorem dispatchClient_below {index i : Nat} (hi : i < index) (events : Revents) (a : Answers) :
    (b.dispatchClient index events a).clients[i]? = b.clients[i]? := by
  have hclose : ∀ b : Broker, (b.closeClient index).clients[i]? = b.clients[i]? := by
    intro b
    by_cases hlt : index < b.clients.length
    · rw [(desk_closeClient (List.getElem?_eq_getElem hlt)).2]
      exact SwapRemove.getElem?_swapRemove_of_lt hlt hi
    · rw [closeClient_of_none (List.getElem?_eq_none (Nat.le_of_not_lt hlt))]
  have hserve : ∀ client, (b.serveClient index client a).1.clients[i]? = b.clients[i]? := by
    intro client
    exact List.getElem?_set_ne (Nat.ne_of_gt hi)
  rcases dispatchClient_cases b index events a with
    hsame | hclosed | ⟨client, -, -, ⟨-, heq⟩ | heq⟩
  · rw [hsame]
  · rw [hclosed]
    exact hclose b
  · rw [heq]
    exact hserve client
  · rw [heq]
    exact (hclose _).trans (hserve client)

theorem polledOwn_of_leaving (h : b.pc = .leaving ∨ b.pc = .top) : b.PolledOwn := by
  unfold PolledOwn
  rcases h with h | h <;> rw [h] <;> trivial

theorem PolledOwn.step (h : b.PolledOwn) (i : Input) : (b.step i).PolledOwn := by
  cases i with
  | signal => exact h
  | head reallocated poll =>
      simp only [Broker.step]
      split
      · unfold loopHead
        split
        · trivial
        · split
          · dsimp only
            split
            · trivial
            · exact growAndPoll_polledOwn _ _ _
          · exact growAndPoll_polledOwn _ _ _
      · exact h
  | dispatch a =>
      simp only [Broker.step]
      split
      · trivial
      · next index fds hpc =>
          rw [PolledOwn, hpc] at h
          intro i client hi hclient
          rw [dispatchClient_below hi] at hclient
          exact h i client (Nat.lt_succ_of_lt hi) hclient
      · exact h
  | accept a =>
      simp only [Broker.step]
      split
      · exact polledOwn_of_leaving (acceptClient_pc b _ a)
      · exact h
  | leave =>
      simp only [Broker.step]
      split
      · trivial
      · exact h

theorem Reachable.polledOwn (h : Reachable b) : b.PolledOwn := by
  refine Execution.Reachable.invariant (I := PolledOwn) ?_ ?_ h
  · rintro b ⟨maxClients, listenerFd, rfl⟩
    trivial
  · rintro b i b' hb rfl
    exact hb.step i

/-- In the turn of a client that has spoken the limit plays no part. -/
theorem dispatchClient_spoken {events : Revents} (hindex : b.clients[index]? = some client)
    (hspoken : client.handledMessage = true) (hpollin : events.pollin = true) (a : Answers) :
    b.dispatchClient index events a =
      if (b.serveClient index client a).2 && !events.failed then (b.serveClient index client a).1
      else (b.serveClient index client a).1.closeClient index := by
  have hset : events ≠ .clear := by
    rintro rfl
    cases hpollin
  have hexamine : b.examineClient index client events a = b.serveClient index client a := by
    simp [examineClient, hspoken, hpollin]
  simp only [dispatchClient, hindex, if_neg hset, hexamine]

/-- Serving a client that has spoken leaves its record as it was. -/
theorem serveClient_spoken (hindex : b.clients[index]? = some client)
    (hspoken : client.handledMessage = true) (a : Answers) :
    (b.serveClient index client a).1.clients = b.clients := by
  obtain ⟨hlt, hget⟩ := List.getElem?_eq_some_iff.mp hindex
  have hsame : (brokerHandleClientMessage b.kernel client b.generation a).2.1 = client := by
    rcases Desk.brokerHandleClientMessage_client b.kernel client b.generation a with heq | heq
    · exact heq
    · rw [heq, ← hspoken]
  show b.clients.set index (brokerHandleClientMessage b.kernel client b.generation a).2.1 = b.clients
  rw [hsame, ← hget, List.set_getElem_self]

/-- Removing one client leaves the others. -/
theorem mem_closeClient (hmem : client ∈ b.clients) (hother : b.clients[index]? ≠ some client) :
    client ∈ (b.closeClient index).clients := by
  by_cases hlt : index < b.clients.length
  · rw [(desk_closeClient (List.getElem?_eq_getElem hlt)).2]
    rcases List.mem_cons.mp ((SwapRemove.perm_swapRemove hlt).mem_iff.mp hmem) with heq | hrest
    · rw [List.getElem?_eq_getElem hlt, heq] at hother
      exact absurd rfl hother
    · exact hrest
  · rwa [closeClient_of_none (List.getElem?_eq_none (Nat.le_of_not_lt hlt))]

theorem mem_serveClient (hmem : client ∈ b.clients) (hother : b.clients[index]? ≠ some client)
    (served : ClientConnection) (a : Answers) :
    client ∈ (b.serveClient index served a).1.clients := by
  obtain ⟨i, hi⟩ := List.mem_iff_getElem?.mp hmem
  have hne : index ≠ i := by
    intro heq
    exact hother (heq ▸ hi)
  refine List.mem_of_getElem? (i := i) ?_
  exact (List.getElem?_set_ne hne).trans hi

theorem mem_evict (hmem : client ∈ b.clients) (hspoken : client.handledMessage = true) :
    client ∈ (b.evict b.clients.length).clients := by
  rw [(dispatch_exact b).1.clients.mem_iff]
  exact List.mem_filter.mpr ⟨hmem, hspoken⟩

theorem mem_loopHead (hmem : client ∈ b.clients) (hspoken : client.handledMessage = true)
    (reallocated : Bool) (poll : PollAnswer) : client ∈ (b.loopHead reallocated poll).clients := by
  have hgrow : ∀ b : Broker, (b.growAndPoll reallocated poll).clients = b.clients := by
    intro b
    unfold growAndPoll
    split
    · rfl
    · dsimp only
      split
      · rfl
      · cases poll <;> rfl
  unfold loopHead
  split
  · exact hmem
  · split
    · have hstay : client ∈ (b.closeListener.evict b.closeListener.clients.length).clients := by
        refine mem_evict ?_ hspoken
        unfold closeListener
        split <;> exact hmem
      dsimp only
      split
      · exact hstay
      · rw [hgrow]
        exact hstay
    · rw [hgrow]
      exact hmem

theorem mem_acceptClient (hmem : client ∈ b.clients) (events : Revents) (a : AcceptAnswers) :
    client ∈ (b.acceptClient events a).clients := by
  unfold acceptClient
  dsimp only
  split
  · split <;> exact hmem
  · split
    · split <;> exact hmem
    · split
      · exact hmem
      · split
        · next clients' capacity hadd =>
            rw [show clients' = _ from brokerAddClient_clients hadd]
            exact List.mem_append_left _ hmem
        · exact hmem

theorem Reachable.mem_dispatch (h : Reachable b) (hmem : client ∈ b.clients)
    (hspoken : client.handledMessage = true) {fds : List PollFd}
    (hpc : b.pc = .dispatch (index + 1) fds) (a : Answers) :
    client ∈ (b.step (.dispatch a)).clients ∨ b.OwnEnd (.dispatch a) client := by
  simp only [step, hpc]
  by_cases hindex : b.clients[index]? = some client
  · have hpolled := h.polledOwn
    rw [PolledOwn, hpc] at hpolled
    obtain ⟨entry, hentry, hfd⟩ := hpolled index client (Nat.lt_succ_self index) hindex
    rw [hentry, Option.elim_some]
    by_cases hfailed : entry.revents.failed = true
    · exact .inr (.hungUp a hpc hindex hentry hfd hfailed)
    · by_cases hpollin : entry.revents.pollin = true
      · rw [dispatchClient_spoken hindex hspoken hpollin]
        cases hkeep : (b.serveClient index client a).2 with
        | true =>
            rw [Bool.true_and, Bool.eq_false_of_not_eq_true hfailed, Bool.not_false, if_pos rfl,
              serveClient_spoken hindex hspoken]
            exact .inl hmem
        | false =>
            obtain ⟨c, -, hmsg⟩ := h.inv.served hindex a
            exact .inr (.message a hpc hindex hentry hfd hpollin (hmsg.ends hkeep))
      · -- nothing happened on this connection
        left
        have hskip : b.dispatchClient index entry.revents a = b := by
          simp [dispatchClient, hindex, examineClient, hspoken, hpollin, hfailed]
        rw [hskip]
        exact hmem
  · left
    rcases dispatchClient_cases b index ((fds[index + 1]?).elim .clear (·.revents)) a with
      hsame | hclosed | ⟨other, hother, -, hserve⟩
    · rw [hsame]
      exact hmem
    · rw [hclosed]
      exact mem_closeClient hmem hindex
    · rcases hserve with ⟨-, heq⟩ | heq
      · rw [heq]
        exact mem_serveClient hmem hindex other a
      · have hlt : index < (b.serveClient index other a).1.clients.length := by
          rw [serveClient, List.length_set]
          exact (List.getElem?_eq_some_iff.mp hother).1
        have hclosed : ((b.serveClient index other a).1.closeClient index).clients =
            (b.closeClient index).clients := by
          rw [(desk_closeClient (List.getElem?_eq_getElem hlt)).2, (desk_closeClient hother).2]
          exact SwapRemove.swapRemove_set _ _ _
        rw [heq, hclosed]
        exact mem_closeClient hmem hindex

/-! ### How the broker stops -/

/-- What stops the broker apart from the limit. -/
inductive Stop
  | signal
  | poll
  | allocation
  | accept
  deriving DecidableEq

/-- The entries for `poll` cannot be had. -/
def LacksEntries (b : Broker) (reallocated : Bool) : Prop :=
  b.clients.length = sizeMax ∨ b.clients.length + 1 > b.pollCapacity ∧
    (b.clients.length + 1 > sizeMax / sizeofPollFd ∨ reallocated = false)

/-- The end of a round calls `accept4`. -/
def Accepts (b : Broker) (events : Revents) : Prop :=
  b.limitReached = false ∧ events.pollin = true

/-- The step leaves the loop, and what for. -/
inductive Stops (b : Broker) : Input → Stop → Prop
  | signal (reallocated : Bool) (poll : PollAnswer) : b.pc = .top → b.stopping = true →
      Stops b (.head reallocated poll) .signal
  | pollAllocation (reallocated : Bool) (poll : PollAnswer) : b.pc = .top → ¬ b.EndsItself →
      b.beforePoll.LacksEntries reallocated → Stops b (.head reallocated poll) .allocation
  | poll (reallocated : Bool) : b.pc = .top → ¬ b.EndsItself →
      ¬ b.beforePoll.LacksEntries reallocated → Stops b (.head reallocated .error) .poll
  | listenerPoll {events : Revents} (a : AcceptAnswers) : b.pc = .accept events →
      ¬ b.Accepts events → events.failed = true → Stops b (.accept a) .poll
  | accept {events : Revents} (a : AcceptAnswers) : b.pc = .accept events → b.Accepts events →
      (b.kernel.accept4 a.accepted).2 < 0 → a.retry = false → Stops b (.accept a) .accept
  | clientAllocation {events : Revents} (a : AcceptAnswers) : b.pc = .accept events →
      b.Accepts events → 0 ≤ (b.kernel.accept4 a.accepted).2 → peerAccepted a = true →
      brokerAddClient b.clients b.clientCapacity (b.kernel.accept4 a.accepted).2 a.reallocated =
        none →
      Stops b (.accept a) .allocation

/-- `poll` is not reached, or it fails. -/
theorem growAndPoll_leaving {reallocated : Bool} {poll : PollAnswer} :
    (b.growAndPoll reallocated poll).pc = .leaving ↔
      b.LacksEntries reallocated ∨ ¬ b.LacksEntries reallocated ∧ poll = .error := by
  unfold growAndPoll
  split
  · next hfull => exact iff_of_true rfl (.inl (.inl hfull))
  · next hroom =>
      dsimp only
      split
      · next hgrow =>
          simp only [Bool.not_eq_true'] at hgrow
          exact iff_of_true rfl (.inl (.inr hgrow))
      · next hgrow =>
          simp only [Bool.not_eq_true'] at hgrow
          have henough : ¬ b.LacksEntries reallocated := not_or.mpr ⟨hroom, hgrow⟩
          cases poll with
          | error => exact iff_of_true rfl (.inr ⟨henough, rfl⟩)
          | interrupted | ready =>
              refine iff_of_false (by simp) ?_
              rintro (hlacks | ⟨-, herror⟩)
              · exact henough hlacks
              · cases herror

theorem acceptClient_stops {events : Revents} {a : AcceptAnswers} (hpc : b.pc = .accept events)
    (h : (b.acceptClient events a).pc = .leaving) : ∃ reason, b.Stops (.accept a) reason := by
  unfold acceptClient at h
  dsimp only at h
  split at h
  · next hguard =>
      split at h
      · next hfailed =>
          refine ⟨.poll, .listenerPoll a hpc ?_ hfailed⟩
          rintro ⟨hlimit, hpollin⟩
          simp [hlimit, hpollin] at hguard
      · cases h
  · next hguard =>
      have haccepts : b.Accepts events := by simpa [Accepts] using hguard
      split at h
      · next hneg =>
          split at h
          · cases h
          · next hretry =>
              exact ⟨.accept, .accept a hpc haccepts hneg (Bool.not_eq_true _ ▸ hretry)⟩
      · next hpos =>
          split at h
          · cases h
          · next hpeer =>
              split at h
              · cases h
              · next hadd =>
                  exact ⟨.allocation, .clientAllocation a hpc haccepts (Int.not_lt.mp hpos)
                    (by simpa using hpeer) hadd⟩

/-- The loop is left for one of the failures, for a signal, or because the limit is reached
and no client is left. -/
theorem step_leaving {i : Input} (hpc : b.pc ≠ .leaving) (h : (b.step i).pc = .leaving) :
    (∃ reason, b.Stops i reason) ∨ b.limitReached = true ∧ (b.step i).clients = [] := by
  cases i with
  | signal => exact absurd h hpc
  | head reallocated poll =>
      simp only [step] at h ⊢
      split at h
      · next htop =>
          simp only [loopHead_eq] at h ⊢
          split at h
          · next hstopping => exact .inl ⟨.signal, .signal reallocated poll htop hstopping⟩
          · next hstopping =>
              rw [if_neg hstopping]
              split at h
              · next hnone =>
                  rw [if_pos hnone]
                  exact .inr hnone
              · next hmore =>
                  left
                  have hgoes : ¬ b.EndsItself := not_or.mpr ⟨hstopping, hmore⟩
                  rcases growAndPoll_leaving.mp h with hlacks | ⟨henough, rfl⟩
                  · exact ⟨.allocation, .pollAllocation reallocated poll htop hgoes hlacks⟩
                  · exact ⟨.poll, .poll reallocated htop hgoes henough⟩
      · exact absurd h hpc
  | dispatch a =>
      simp only [step] at h
      split at h
      · cases h
      · cases h
      · exact absurd h hpc
  | accept a =>
      simp only [step] at h
      split at h
      · next events haccept => exact .inl (acceptClient_stops haccept h)
      · exact absurd h hpc
  | leave =>
      simp only [step] at h
      exact absurd h hpc

theorem Stops.leaving {i : Input} {reason : Stop} (h : b.Stops i reason) :
    (b.step i).pc = .leaving := by
  cases h with
  | signal reallocated poll hpc hstopping => simp [step, hpc, loopHead_eq, hstopping]
  | pollAllocation reallocated poll hpc hgoes hlacks =>
      obtain ⟨hstopping, hmore⟩ := not_or.mp hgoes
      simp only [step, hpc, loopHead_eq, if_neg hstopping, if_neg hmore]
      exact growAndPoll_leaving.mpr (.inl hlacks)
  | poll reallocated hpc hgoes henough =>
      obtain ⟨hstopping, hmore⟩ := not_or.mp hgoes
      simp only [step, hpc, loopHead_eq, if_neg hstopping, if_neg hmore]
      exact growAndPoll_leaving.mpr (.inr ⟨henough, rfl⟩)
  | @listenerPoll events a hpc hidle hfailed =>
      have hguard : (b.limitReached || !events.pollin) = true := by
        by_contra haccepts
        exact hidle (by simpa [Accepts] using haccepts)
      simp [step, hpc, acceptClient, hguard, hfailed, fail]
  | accept a hpc haccepts hneg hretry =>
      simp [step, hpc, acceptClient, haccepts.1, haccepts.2, hneg, hretry, fail]
  | clientAllocation a hpc haccepts hpos hpeer hadd =>
      simp [step, hpc, acceptClient, haccepts.1, haccepts.2, Int.not_lt.mpr hpos, hpeer, hadd, fail]

/-- Somewhere in the run from `b` the client's connection ended in its own turn, or the broker
was stopped for one of the reasons. -/
def Ended (b : Broker) (inputs : List Input) (client : ClientConnection) (reasons : Stop → Prop) :
    Prop :=
  ∃ before i after t, inputs = before ++ i :: after ∧ Execution.Run Step b before t ∧
    client ∈ t.clients ∧
    (t.OwnEnd i client ∨ ∃ reason, reasons reason ∧ t.Stops i reason)

theorem Ended.extend {inputs : List Input} {reasons : Stop → Prop}
    (h : b.Ended inputs client reasons) (more : List Input) :
    b.Ended (inputs ++ more) client reasons := by
  obtain ⟨before, i, after, t, hinputs, hrest⟩ := h
  refine ⟨before, i, after ++ more, t, ?_, hrest⟩
  rw [hinputs, List.append_assoc, List.cons_append]

theorem Reachable.mem_step (h : Reachable b) (hmem : client ∈ b.clients)
    (hspoken : client.handledMessage = true) (hpc : b.pc ≠ .leaving) (i : Input) :
    client ∈ (b.step i).clients ∨ b.OwnEnd i client := by
  cases i with
  | signal => exact .inl hmem
  | head reallocated poll =>
      left
      simp only [step]
      split
      · exact mem_loopHead hmem hspoken reallocated poll
      · exact hmem
  | dispatch a =>
      cases hplace : b.pc with
      | dispatch n fds =>
          cases n with
          | zero =>
              left
              simp only [step, hplace]
              exact hmem
          | succ index => exact h.mem_dispatch hmem hspoken hplace a
      | top | accept | leaving | returned =>
          left
          simp only [step, hplace]
          exact hmem
  | accept a =>
      left
      simp only [step]
      split
      · exact mem_acceptClient hmem _ a
      · exact hmem
  | leave =>
      left
      simp only [step]
      exact hmem

/-- Whoever has spoken stays connected, under the same number, until its own turn ends it or the
broker is stopped; the limit is no reason. -/
theorem Reachable.stays (h : Reachable b) (hpc : b.pc ≠ .leaving) (hmem : client ∈ b.clients)
    (hspoken : client.handledMessage = true) {inputs : List Input}
    (hrun : Execution.Run Step b inputs b') :
    (client ∈ b'.clients ∧ b'.kernel.fds.get client.fd = b.kernel.fds.get client.fd ∧
        b'.pc ≠ .leaving) ∨
      b.Ended inputs client fun _ => True := by
  induction hrun with
  | start => exact .inl ⟨hmem, rfl, hpc⟩
  | @next inputs b' i b'' hrun hlast ih =>
      rcases ih with ⟨hmem', hsame, hpc'⟩ | hended
      · cases hlast
        have hb' := h.run_reachable hrun
        by_cases hend : b'.OwnEnd i client ∨ ∃ reason, b'.Stops i reason
        · refine .inr ⟨inputs, i, [], b', rfl, hrun, hmem', hend.imp_right ?_⟩
          rintro ⟨reason, hstops⟩
          exact ⟨reason, trivial, hstops⟩
        · obtain ⟨hown, hstops⟩ := not_or.mp hend
          have hstay := (hb'.mem_step hmem' hspoken hpc' i).resolve_right hown
          refine .inl ⟨hstay, ?_, ?_⟩
          · obtain ⟨c, hc⟩ := hb'.inv.clients_open client hmem'
            obtain ⟨c', hc'⟩ := (hb'.step_reachable i).inv.clients_open client hstay
            rw [hc', hb'.inv.step_settles i _ _ _ hc hc', ← hsame, hc]
          · intro hleaving
            rcases step_leaving hpc' hleaving with hstop | ⟨-, hnone⟩
            · exact hstops hstop
            · rw [hnone] at hstay
              cases hstay
      · exact .inr (hended.extend [i])

/-- What `--max-clients` comes to. -/
structure LimitKept (b : Broker) : Prop where
  counted : b.Counted
  exclusive : b.limitReached = true → ∀ inputs b', Execution.Run Step b inputs b' → b.Exclusive b'
  evicting : b.KeepsGeneration b.beforePoll
  refusing : ∀ index client, b.clients[index]? = some client → client.handledMessage = false →
    b.KeepsGeneration (b.closeClient index)
  stays : b.pc ≠ .leaving → ∀ client ∈ b.clients, client.handledMessage = true →
    ∀ inputs b', Execution.Run Step b inputs b' →
      (client ∈ b'.clients ∧ b'.kernel.fds.get client.fd = b.kernel.fds.get client.fd) ∨
        b.Ended inputs client fun _ => True
  served : ∀ index client events a, b.clients[index]? = some client →
    client.handledMessage = true → events.pollin = true →
      b.dispatchClient index events a =
        if (b.serveClient index client a).2 && !events.failed then (b.serveClient index client a).1
        else (b.serveClient index client a).1.closeClient index
  leaves : ∀ i, b.pc ≠ .leaving → (b.step i).pc = .leaving →
    (∃ reason, b.Stops i reason) ∨ b.limitReached = true ∧ (b.step i).clients = []
  stops : ∀ i reason, b.Stops i reason → (b.step i).pc = .leaving

theorem limit_kept (h : Reachable b) (hlimited : b.maxClients ≠ 0)
    (hulong : b.maxClients ≤ ulongMax) : b.LimitKept where
  counted := h.counted hlimited hulong
  exclusive := fun hlimit _ _ hrun => (h.exclusive hlimited hulong hlimit hrun).1
  evicting := h.inv.beforePoll_keeps
  refusing := fun _ _ hindex hflag => h.inv.close_unspoken hindex hflag
  stays := by
    intro hpc client hmem hspoken inputs b' hrun
    refine (h.stays hpc hmem hspoken hrun).imp_left ?_
    rintro ⟨hstay, hsame, -⟩
    exact ⟨hstay, hsame⟩
  served := fun _ _ _ a hindex hspoken hpollin => dispatchClient_spoken hindex hspoken hpollin a
  leaves := fun _ hpc hleaving => step_leaving hpc hleaving
  stops := fun _ _ hstops => hstops.leaving

/-- With a limit of one, the connection at descriptor 4 builds a generation and the one at 7 has
not spoken. -/
def full : Broker :=
  [.head true (.ready [readable]), .dispatch (answering []), .accept (accepting 4 0),
    .head true (.ready [readable]), .dispatch (answering []), .dispatch (answering []),
    .accept (accepting 7 1), .head true (.ready [.clear, readable]), .dispatch (answering []),
    .dispatch (answering pageRequest.encode), .dispatch (answering []),
    .accept (accepting 8 2)].foldl step (start 1 3)

theorem limit_kept_when_full :
    full.limitReached = true ∧ full.pc = .top ∧ full.clients = [⟨4, true⟩, ⟨7, false⟩] ∧
      full.generation.state = .initializing ∧ full.beforePoll.clients = [⟨4, true⟩] ∧
      full.beforePoll.generation.state = .initializing ∧ full.LimitKept :=
  ⟨by decide +kernel, by decide +kernel, by decide +kernel, by decide +kernel, by decide +kernel,
    by decide +kernel,
    limit_kept ((reachable_start 1 3).foldl _) (by decide +kernel) (by decide +kernel)⟩

/-- With a limit of two, the connection at descriptor 4 has spoken and another is waiting. -/
def waiting : Broker :=
  [.head true (.ready [readable]), .dispatch (answering []), .accept (accepting 4 0),
    .head true (.ready [readable, readable]), .dispatch (answering pageRequest.encode),
    .dispatch (answering [])].foldl step (start 2 3)

/-- `accept4` fails for good, as it does when the process may open no more files. -/
def acceptFailing : AcceptAnswers where
  accepted := none
  retry := false
  credentials := none
  effectiveUid := 1000
  reallocated := true

/-- A failing `accept4` ends the broker and with it the connections that were counted, although
there was no signal and no failure of `poll` or of an allocation. -/
theorem counted_client_lost :
    ¬ ∀ b : Broker, Reachable b → b.maxClients ≠ 0 → b.maxClients ≤ ulongMax →
      b.pc ≠ .leaving → ∀ client ∈ b.clients, client.handledMessage = true →
        ∀ inputs b', Execution.Run Step b inputs b' →
          client ∈ b'.clients ∨ b.Ended inputs client fun reason => reason ≠ .accept := by
  intro hclaim
  have hwaiting : Reachable waiting := (reachable_start 2 3).foldl _
  have hpc : waiting.pc = .accept readable := by decide +kernel
  rcases hclaim waiting hwaiting (by decide +kernel) (by decide +kernel) (by decide +kernel)
    ⟨4, true⟩ (by decide +kernel) rfl [.accept acceptFailing, .leave] _ (run_foldl _ _) with
    hstay | ⟨before, i, after, t, hinputs, hrun, hmem, hend⟩
  · exact absurd hstay (by decide +kernel)
  · cases eq_foldl_of_run hrun
    cases before with
    | nil =>
        cases hinputs
        rcases hend with hown | ⟨reason, hreason, hstops⟩
        · cases hown
        · cases hstops with
          | listenerPoll _ hpc' _ hfailed =>
              rw [List.foldl_nil, hpc] at hpc'
              cases hpc'
              cases hfailed
          | accept => exact hreason rfl
          | clientAllocation _ _ _ haccepted => exact absurd haccepted (by decide +kernel)
    | cons first rest =>
        rw [List.cons_append, List.cons.injEq] at hinputs
        cases rest with
        | nil =>
            cases hinputs.2
            rcases hend with hown | ⟨reason, -, hstops⟩
            · cases hown
            · cases hstops
        | cons second rest =>
            have hlength := congrArg List.length hinputs.2
            simp at hlength

end Broker

end Hyperglyph
