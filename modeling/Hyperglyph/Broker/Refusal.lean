import Hyperglyph.Broker.Invariant

/-! A refused request leaves no trace: `ahe_broker_handle_acquire` creates first and compares
afterwards, and `ahe_generation_create` undoes what it made before it fails. -/
namespace Hyperglyph

open Octets

/-- A message of this type was handed to `sendmsg`, whether or not it left. -/
def Replies (events : List Event) (type : MessageType) : Prop :=
  ∃ c m attached, m.type = type.code ∧
    (Event.sent c m attached ∈ events ∨ Event.unsent c m attached ∈ events)

/-- `DECLINE`, `ERROR`, or no answer because there was no well-framed message. -/
def Refuses (events : List Event) : Prop :=
  Replies events .decline ∨ Replies events .error ∨ ∀ type, ¬ Replies events type

/-- The generation and the descriptor table are what they were, the memfds made on the way
are closed, and nothing was attached to the answer. -/
structure Inert (k : Kernel) (g : Generation) (events : List Event)
    (r : Kernel × ClientConnection × Generation × Bool) : Prop where
  generation : r.2.2.1 = g
  fds : r.1.fds = k.fds
  discarded : ∀ n, k.nextMemfd ≤ n → n < r.1.nextMemfd → Event.closed (.memfd n) ∈ events
  bare : ∀ c m attached, Event.sent c m attached ∈ events ∨ Event.unsent c m attached ∈ events →
    attached = []

/-- When `ahe_broker_handle_acquire` declines. -/
def Declines (g : Generation) (fd : Fd) (m : MessageV1) : Prop :=
  g.state ≠ .empty ∧
    (m.mappingSize ≠ g.mappingSize ∨ terminated m.cacheKey.bytes = false ∨
      cString m.cacheKey.bytes ≠ cString g.cacheKey.bytes ∨
      g.state = .initializing ∧ g.creatorFd ≠ fd)

section Replies

variable {c : ConnId} {d : List UInt8} {m : MessageV1} {attached : List Object} {sent : Bool}
  {type : MessageType} {before : List Event}

/-- A call that answers once has the type of that answer. -/
theorem replies_replyEvent
    (hbefore : ∀ c' m' attached', Event.sent c' m' attached' ∉ before ∧
      Event.unsent c' m' attached' ∉ before) :
    Replies (before ++ [replyEvent c m attached sent]) type ↔ m.type = type.code := by
  constructor
  · rintro ⟨c', m', attached', htype, hmem⟩
    have hother := hbefore c' m' attached'
    simp only [List.mem_append, List.mem_singleton, sent_eq_reply, unsent_eq_reply] at hmem
    have hsame : m' = m := by
      rcases hmem with (hold | ⟨-, -, hm, -⟩) | hold | ⟨-, -, hm, -⟩
      · exact absurd hold hother.1
      · exact hm
      · exact absurd hold hother.2
      · exact hm
    rw [← hsame, htype]
  · intro htype
    refine ⟨c, m, attached, htype, ?_⟩
    cases sent <;> simp [replyEvent]

theorem generationMatches_eq_false {g : Generation} :
    generationMatches g m = false ↔ m.mappingSize ≠ g.mappingSize ∨
      terminated m.cacheKey.bytes = false ∨
      cString m.cacheKey.bytes ≠ cString g.cacheKey.bytes := by
  simp only [generationMatches, strcmpEq, Bool.and_eq_false_iff, beq_eq_false_iff_ne, or_assoc]

end Replies

section Handler

variable {k : Kernel} {client : ClientConnection} {c : ConnId} {g : Generation} {a : Answers}
  {r : Kernel × ClientConnection × Generation × Bool}

theorem shareResponse_type (g : Generation) :
    (shareResponse g).type = (if g.state = .ready then MessageType.attach else .create).code := by
  simp only [shareResponse, brokerMessageInit_type]

/-- An answer that carries descriptors is no refusal. -/
theorem replies_share {type : MessageType} {p q : Object} {before : List Event}
    (hbefore : ∀ c' m' attached', Event.sent c' m' attached' ∉ before ∧
      Event.unsent c' m' attached' ∉ before) :
    Replies (before ++ [replyEvent c (shareResponse g) [p, q] a.sent]) type ↔
      type = if g.state = .ready then .attach else .create := by
  rw [replies_replyEvent hbefore, shareResponse_type]
  exact ⟨fun h => (MessageType.code_injective h).symm, fun h => by rw [h]⟩

theorem share_not_refused {p q : Object} {before : List Event}
    (hbefore : ∀ c' m' attached', Event.sent c' m' attached' ∉ before ∧
      Event.unsent c' m' attached' ∉ before) :
    ¬ Refuses (before ++ [replyEvent c (shareResponse g) [p, q] a.sent]) := by
  rintro (hdecline | herror | hnone)
  · rw [replies_share hbefore] at hdecline
    split at hdecline <;> cases hdecline
  · rw [replies_share hbefore] at herror
    split at herror <;> cases herror
  · exact hnone _ ((replies_share hbefore).mpr rfl)

theorem ack_not_refused {before : List Event}
    (hbefore : ∀ c' m' attached', Event.sent c' m' attached' ∉ before ∧
      Event.unsent c' m' attached' ∉ before) (sent : Bool) :
    ¬ Refuses (before ++ [replyEvent c (brokerMessageInit .ack) [] sent]) := by
  rintro (hdecline | herror | hnone)
  · exact absurd ((replies_replyEvent hbefore).mp hdecline) (by decide)
  · exact absurd ((replies_replyEvent hbefore).mp herror) (by decide)
  · exact hnone .ack ((replies_replyEvent hbefore).mpr rfl)

theorem received_is_no_reply (c : ConnId) (d : List UInt8) (c' : ConnId) (m' : MessageV1)
    (attached' : List Object) :
    Event.sent c' m' attached' ∉ [Event.received c d] ∧
      Event.unsent c' m' attached' ∉ [Event.received c d] := by
  simp

/-- A call that refuses has done nothing that lasts. -/
theorem HandleMessage.inert (h : HandleMessage k client c g a r) :
    ∃ events, r.1.log = k.log ++ events ∧ (Refuses events → Inert k g events r) := by
  cases h with
  | failed hrecv =>
      refine ⟨[], (List.append_nil _).symm, fun _ => ⟨rfl, rfl, ?_, ?_⟩⟩
      · intro n hle hlt
        exact absurd hlt (Nat.not_lt.mpr hle)
      · simp
  | dropped d hrecv hbad =>
      refine ⟨_, rfl, fun _ => ⟨rfl, rfl, ?_, ?_⟩⟩
      · intro n hle hlt
        exact absurd hlt (Nat.not_lt.mpr hle)
      · simp
  | plain d m reply keep hrecv hm hplain =>
      refine ⟨_, rfl, fun _ => ⟨rfl, rfl, ?_, ?_⟩⟩
      · intro n hle hlt
        exact absurd hlt (Nat.not_lt.mpr hle)
      · rintro c' m' attached (hsent | hunsent)
        · simp only [List.mem_cons, List.not_mem_nil, or_false, reduceCtorEq, false_or,
            sent_eq_reply] at hsent
          exact hsent.2.2.2
        · simp only [List.mem_cons, List.not_mem_nil, or_false, reduceCtorEq, false_or,
            unsent_eq_reply] at hunsent
          exact hunsent.2.2.2
  | shared d m p q hrecv hm htype hne hheld hmatch hown =>
      exact ⟨_, rfl, fun hrefused =>
        absurd hrefused (share_not_refused (received_is_no_reply c d))⟩
  | created d m cacheFd lockFd hrecv hm htype hg hvalid hmade hcache hlock hfds =>
      exact ⟨_, List.append_assoc _ _ _, fun hrefused =>
        absurd hrefused (share_not_refused (received_is_no_reply c d))⟩
  | notCreated d m made hrecv hm htype hg hmade hwhy =>
      subst hg
      refine ⟨_, (by simp only [Kernel.emit, Kernel.discarded, List.append_assoc]; rfl),
        fun _ => ⟨rfl, rfl, ?_, ?_⟩⟩
      · intro n hle hlt
        have hlt' : n < k.nextMemfd + made := hlt
        refine List.mem_append_right _ (List.mem_append_left _ (List.mem_map.mpr ?_))
        refine ⟨n - k.nextMemfd, List.mem_range.mpr (by omega), ?_⟩
        show Event.closed (.memfd (k.nextMemfd + (n - k.nextMemfd))) = _
        rw [Nat.add_sub_cancel' hle]
      · rintro c' m' attached (hsent | hunsent)
        · simp at hsent
          exact hsent.2.2.2
        · simp at hunsent
          exact hunsent.2.2.2
  | published d m hrecv hm htype haccepted hsent =>
      refine ⟨_, rfl, fun hrefused => absurd hrefused ?_⟩
      exact ack_not_refused (received_is_no_reply c d) true
  | aborted d m p q hrecv hm htype hbuilding hcreator hheld =>
      refine ⟨_, rfl, fun hrefused => absurd hrefused ?_⟩
      have hbefore : ∀ c' m' attached',
          Event.sent c' m' attached' ∉
              [.received c d, .closed (.memfd p), .closed (.memfd q)] ∧
            Event.unsent c' m' attached' ∉
              [.received c d, .closed (.memfd p), .closed (.memfd q)] := by simp
      exact ack_not_refused hbefore a.sent

theorem not_declines_of_matches {fd : Fd} {m : MessageV1} (hmatch : generationMatches g m = true)
    (hown : g.state = .initializing → g.creatorFd = fd) : ¬ Declines g fd m := by
  rintro ⟨-, hwhy⟩
  rw [← or_assoc, ← or_assoc, or_assoc (a := m.mappingSize ≠ g.mappingSize),
    ← generationMatches_eq_false, hmatch] at hwhy
  rcases hwhy with hfalse | ⟨hbuilding, hother⟩
  · cases hfalse
  · exact hother (hown hbuilding)

theorem declines_of_unmatched {fd : Fd} {m : MessageV1} (hne : g.state ≠ .empty)
    (hwhy : generationMatches g m = false ∨ (g.state = .initializing ∧ g.creatorFd ≠ fd)) :
    Declines g fd m := by
  refine ⟨hne, ?_⟩
  rwa [← or_assoc, ← or_assoc, or_assoc (a := m.mappingSize ≠ g.mappingSize),
    ← generationMatches_eq_false]

/-- Which acquisitions are declined. -/
theorem HandleMessage.declines_iff (h : HandleMessage k client c g a r) {events : List Event}
    (hlog : r.1.log = k.log ++ events) {d : List UInt8} {m : MessageV1}
    (hrecv : a.recv = .datagram d) (hm : brokerReceive d = .message m)
    (htype : m.type = MessageType.acquire.code) :
    Replies events .decline ↔ Declines g client.fd m := by
  have hsame : ∀ {d' m'}, a.recv = .datagram d' → brokerReceive d' = .message m' → m' = m := by
    intro d' m' hrecv' hm'
    rw [hrecv] at hrecv'
    cases hrecv'
    rw [hm] at hm'
    cases hm'
    rfl
  cases h with
  | failed hfail =>
      rw [hrecv] at hfail
      cases hfail
  | dropped d' hrecv' hbad =>
      rw [hrecv] at hrecv'
      cases hrecv'
      exact absurd hm (hbad m)
  | plain d' m' reply keep hrecv' hm' hplain =>
      cases hsame hrecv' hm'
      cases List.append_cancel_left hlog
      rw [show ∀ e e' : Event, [e, e'] = [e] ++ [e'] from fun _ _ => rfl,
        replies_replyEvent (received_is_no_reply c d'), brokerMessageInit_type]
      cases hplain with
      | declined _ hne hwhy => exact iff_of_true rfl (declines_of_unmatched hne hwhy)
      | rejected htype' | unacknowledged htype' | ignored htype' | detached htype' =>
          rw [htype] at htype'
          exact absurd htype' (by decide)
      | unknown hother => exact absurd htype hother
  | shared d' m' p q hrecv' hm' _ hne hheld hmatch hown =>
      cases hsame hrecv' hm'
      cases List.append_cancel_left hlog
      rw [show ∀ e e' : Event, [e, e'] = [e] ++ [e'] from fun _ _ => rfl,
        replies_share (received_is_no_reply c d')]
      refine iff_of_false ?_ (not_declines_of_matches hmatch hown)
      split <;> simp
  | created d' m' cacheFd lockFd hrecv' hm' _ hg hvalid hmade hcache hlock hfds =>
      subst hg
      cases hsame hrecv' hm'
      cases List.append_cancel_left ((List.append_assoc _ _ _).symm.trans hlog)
      rw [replies_share (received_is_no_reply c d')]
      refine iff_of_false ?_ (fun hdeclines => hdeclines.1 rfl)
      split <;> simp
  | notCreated d' m' made hrecv' hm' _ hg hmade hwhy =>
      subst hg
      simp only [Kernel.emit, Kernel.discarded, List.append_assoc] at hlog
      cases List.append_cancel_left hlog
      rw [← List.append_assoc, replies_replyEvent (by simp), brokerMessageInit_type]
      exact iff_of_false (by decide) (fun hdeclines => hdeclines.1 rfl)
  | published d' m' hrecv' hm' htype' haccepted hsent =>
      cases hsame hrecv' hm'
      rw [htype] at htype'
      exact absurd htype' (by decide)
  | aborted d' m' p q hrecv' hm' htype' hbuilding hcreator hheld =>
      cases hsame hrecv' hm'
      rw [htype] at htype'
      exact absurd htype' (by decide)

end Handler

/-- A request that is refused changes nothing, and an acquisition is declined exactly when
there is a generation that it does not fit or that another connection is still building. -/
theorem refusal_is_inert {k : Kernel} {clients : List ClientConnection} {g : Generation}
    {listenerFd : Fd} (h : Coherent k.fds clients g listenerFd) {client : ClientConnection}
    (hmem : client ∈ clients) (a : Answers) :
    ∃ events, (brokerHandleClientMessage k client g a).1.log = k.log ++ events ∧
      (Refuses events → Inert k g events (brokerHandleClientMessage k client g a)) ∧
      ∀ d m, a.recv = .datagram d → brokerReceive d = .message m →
        m.type = MessageType.acquire.code →
        (Replies events .decline ↔ Declines g client.fd m) := by
  obtain ⟨c, hc⟩ := h.clients_open client hmem
  have hmsg := brokerHandleClientMessage_spec (a := a) hc h.generation.of_empty h.generation.held
  obtain ⟨events, hlog, hinert⟩ := hmsg.inert
  exact ⟨events, hlog, hinert, fun d m hrecv hm htype => hmsg.declines_iff hlog hrecv hm htype⟩

/-- The creator asks again with another size. -/
def resizedRequest : MessageV1 := { Broker.pageRequest with mappingSize := 8192 }

theorem refusal_is_inert_under_construction :
    ∃ events, Replies events .decline ∧
      Inert Broker.underConstruction.kernel Broker.underConstruction.generation events
        (brokerHandleClientMessage Broker.underConstruction.kernel ⟨4, true⟩
          Broker.underConstruction.generation (Broker.answering resizedRequest.encode)) := by
  have hinv : Broker.underConstruction.Inv := ((Broker.reachable_start 0 3).foldl _).inv
  have hmem : ClientConnection.mk 4 true ∈ Broker.underConstruction.clients := by decide +kernel
  obtain ⟨events, -, hinert, hdeclined⟩ :=
    refusal_is_inert hinv hmem (Broker.answering resizedRequest.encode)
  have hanswer : Replies events .decline :=
    (hdeclined resizedRequest.encode resizedRequest rfl (by decide +kernel) rfl).mpr
      ⟨by decide +kernel, .inl (by decide +kernel)⟩
  exact ⟨events, hanswer, hinert (.inl hanswer)⟩

end Hyperglyph
