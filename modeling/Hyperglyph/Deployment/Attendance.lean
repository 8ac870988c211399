import Hyperglyph.Deployment.Polling

/-! What a client of a ready broker hears over a whole run, and when it is closed. Each of its
messages is handled once and in order. -/
namespace Hyperglyph

/-- Which of the replies to `c` went out. -/
def outcomes (c : ConnId) (events : List Event) : List Bool :=
  events.filterMap fun
    | .sent c' _ _ => if c' = c then some true else none
    | .unsent c' _ _ => if c' = c then some false else none
    | _ => none

/-- The replies to `c` went out as `sends` tells. -/
def SentAs (c : ConnId) (events : List Event) (sends : Nat → Bool) : Prop :=
  ∀ i sent, (outcomes c events)[i]? = some sent → sends i = sent

section Outcomes

variable {c : ConnId} {d : List UInt8} {sent : Bool} {events more : List Event} {x : Offer}
  {sends : Nat → Bool}

theorem outcomes_append : outcomes c (events ++ more) = outcomes c events ++ outcomes c more :=
  List.filterMap_append

theorem outcomes_of_quiet (h : concerning c events = []) : outcomes c events = [] := by
  unfold outcomes
  apply List.filterMap_eq_nil_iff.mpr
  intro e he
  have hother : e.conn? ≠ some c := by
    intro heq
    have hmem : e ∈ concerning c events := List.mem_filter.mpr ⟨he, decide_eq_true heq⟩
    rw [h] at hmem
    cases hmem
  cases e with
  | sent c' m attached | unsent c' m attached =>
      have hne : c' ≠ c := fun heq => hother (congrArg some heq)
      simp only [if_neg hne]
  | _ => rfl

theorem SentAs.before (h : SentAs c (events ++ more) sends) : SentAs c events sends := by
  intro i sent hi
  refine h i sent ?_
  rw [outcomes_append, List.getElem?_append_left (List.getElem?_eq_some_iff.mp hi).1]
  exact hi

/-- A message is dropped, or there is one answer to it. -/
theorem Offer.exchange_cases (x : Offer) (c : ConnId) (d : List UInt8) :
    (∀ sent, x.exchange c d sent = ([.received c d], false)) ∨
      ∃ m attached, ∀ sent, ∃ keep,
        x.exchange c d sent = ([.received c d, replyEvent c m attached sent], keep) := by
  cases hm : brokerReceive d with
  | closed => exact .inl fun sent => exchange_dropped (by simp [hm])
  | bad => exact .inl fun sent => exchange_dropped (by simp [hm])
  | message m =>
      right
      unfold exchange
      rw [hm]
      dsimp only
      split_ifs
      all_goals exact ⟨_, _, fun sent => ⟨_, rfl⟩⟩

theorem Offer.takenFrom_exchange :
    takenFrom c ((x.exchange c d sent).1 ++
      if (x.exchange c d sent).2 then [] else [.closed (.conn c)]) = [d] := by
  have hclose : ∀ keep : Bool, takenFrom c (if keep then [] else [.closed (.conn c)]) = [] := by
    intro keep
    cases keep <;> rfl
  rw [takenFrom_append, hclose, List.append_nil]
  rcases x.exchange_cases c d with hdropped | ⟨m, attached, hanswered⟩
  · rw [hdropped]
    simp [takenFrom]
  · obtain ⟨keep, hexchange⟩ := hanswered sent
    rw [hexchange]
    cases sent <;> simp [takenFrom, replyEvent]

/-- The answer to the next message goes out as the record of all sends tells. -/
theorem Offer.exchange_sent {closing : List Event}
    (h : SentAs c (events ++ ((x.exchange c d sent).1 ++ closing)) sends) :
    x.exchange c d (sends (outcomes c events).length) = x.exchange c d sent := by
  rcases x.exchange_cases c d with hdropped | ⟨m, attached, hanswered⟩
  · rw [hdropped, hdropped]
  · obtain ⟨keep, hexchange⟩ := hanswered sent
    have hsent : sends (outcomes c events).length = sent := by
      refine h _ sent ?_
      rw [outcomes_append, List.getElem?_append_right le_rfl, Nat.sub_self, outcomes_append, hexchange]
      cases sent <;> simp [outcomes, replyEvent]
    rw [hsent]

/-- A connection that outlives a message was answered once. -/
theorem Offer.outcomes_exchange (h : (x.exchange c d sent).2 = true) :
    outcomes c (x.exchange c d sent).1 = [sent] := by
  rcases x.exchange_cases c d with hdropped | ⟨m, attached, hanswered⟩
  · rw [hdropped] at h
    cases h
  · obtain ⟨keep, hexchange⟩ := hanswered sent
    rw [hexchange]
    cases sent <;> simp [outcomes, replyEvent]

end Outcomes

namespace Broker

/-- The generation of a ready broker as its clients see it. -/
def offer (b : Broker) : Offer where
  pair := match b.kernel.fds.get b.generation.cacheFd with
    | some (.memfd p) => p
    | _ => 0
  size := b.generation.mappingSize
  base := b.generation.mappingBase
  offset := b.generation.sharedGlobalsOffset
  key := b.generation.cacheKey

variable {b b' : Broker} {c : ConnId}

theorem Reachable.offered (h : Reachable b) (hready : b.generation.state = .ready) :
    Offered b.kernel.fds b.generation b.offer := by
  obtain ⟨p, q, hheld⟩ := h.inv.generation.held (by rw [hready]; decide)
  obtain rfl := h.tidied.consecutive p q hheld
  have hpair : b.offer.pair = p := by
    unfold offer
    rw [hheld.cache]
  exact ⟨hready, by rw [hpair]; exact hheld, rfl, rfl, rfl, rfl⟩

/-- A ready generation is permanent. -/
theorem Reachable.ready_run (h : Reachable b) (hready : b.generation.state = .ready)
    {inputs : List Input} (hrun : Execution.Run Step b inputs b') :
    b'.pc = .returned ∨
      b'.generation = b.generation ∧ Offered b'.kernel.fds b'.generation b.offer := by
  have hphase : b.ledger.phase = b.offer.phase := by
    have hx := h.offered hready
    unfold ledger phaseOf
    rw [hx.state, hx.held.cache]
    rfl
  have hkept : b'.pc = .returned ∨
      b'.generation = b.generation ∧ b'.ledger.phase = b.offer.phase := by
    induction hrun with
    | start => exact .inr ⟨rfl, hphase⟩
    | @next inputs t i u hbefore hlast ih =>
        cases hlast
        rcases ih with hreturned | ⟨hgeneration, hoffered⟩
        · exact .inl (returned_kept hreturned i)
        · have ht := h.run_reachable hbefore
          have hstate : t.generation.state = .ready := by rw [hgeneration, hready]
          rcases ht.ready_kept hstate i with hreturned | hsame
          · exact .inl hreturned
          · rcases ht.published_kept hoffered with hreturned | hsamePhase
            · exact .inl hreturned
            · exact .inr ⟨hsame.trans hgeneration, hsamePhase.trans hoffered⟩
  refine hkept.imp id ?_
  rintro ⟨hgeneration, hoffered⟩
  have hrep := (h.run_reachable hrun).represents
  rw [hoffered] at hrep
  exact ⟨hgeneration, hrep.offered⟩

/-- A connection that was closed is heard of no more. -/
theorem Reachable.quiet_of_closed (h : Reachable b') {more : List Event}
    (hlog : b'.kernel.log = b.kernel.log ++ more) (hclosed : Event.closed (.conn c) ∈ b.kernel.log) :
    concerning c more = [] := by
  have haccounted := h.owned.accounted
  have hordered := haccounted.ordered
  rw [hlog] at hordered
  have hafter := (List.pairwise_append.mp hordered).2.2
  have honce : Object.conn c ∉ more.filterMap Event.closed? := by
    have hnodup := haccounted.balanced.closed_nodup haccounted.distinct
    unfold Kernel.closedObjects at hnodup
    rw [hlog, List.filterMap_append] at hnodup
    intro hmem
    have hbefore : Object.conn c ∈ b.kernel.log.filterMap Event.closed? :=
      List.mem_filterMap.mpr ⟨_, hclosed, rfl⟩
    exact (List.nodup_append.mp hnodup).2.2 _ hbefore _ hmem rfl
  apply concerning_none
  intro e he heq
  have hunused := hafter _ hclosed e he (.conn c) rfl
  cases e with
  | accepted c' | received c' d =>
      cases heq
      exact hunused rfl
  | sent c' m attached | unsent c' m attached =>
      cases heq
      exact hunused (.inl rfl)
  | closed o =>
      cases o with
      | conn c' =>
          cases heq
          exact honce (List.mem_filterMap.mpr ⟨_, he, rfl⟩)
      | listener | memfd n => cases heq
  | badClose fd => cases heq

end Broker

namespace Crowd

variable {s t u : Crowd} {c : ConnId} {x : Offer}

/-- The loop has `c` still before it in this round, with a message waiting. -/
def Due (s : Crowd) (c : ConnId) : Prop :=
  ∃ j fds index client entry, s.broker.pc = .dispatch j fds ∧ s.broker.Seated c index client ∧
    index < j ∧ fds[index + 1]? = some entry ∧ entry.revents.pollin = true

/-- A step that passes `c` by. -/
structure Passed (s t : Crowd) (c : ConnId) : Prop where
  quiet : concerning c (s.broker.newEvents t.broker) = []
  waiting : (t.channels c).toBroker = (s.channels c).toBroker
  seated : ∃ index client, t.broker.Seated c index client
  due : s.Due c → t.Due c

/-- A step that hears the next message of `c`. -/
structure Heard (x : Offer) (s t : Crowd) (c : ConnId) (d : List UInt8) (sent : Bool) : Prop where
  waiting : (s.channels c).toBroker = d :: (t.channels c).toBroker
  events : s.broker.newEvents t.broker = (x.exchange c d sent).1 ++
    if (x.exchange c d sent).2 then [] else [.closed (.conn c)]
  own : concerning c (s.broker.newEvents t.broker) = s.broker.newEvents t.broker
  taken : takenFrom c (s.broker.newEvents t.broker) = [d]
  seated : (x.exchange c d sent).2 = true → ∃ index client, t.broker.Seated c index client

theorem passed_of_step {i : Input} {index : Nat} {client : ClientConnection}
    (hs : s.Reachable) (hseat : s.broker.Seated c index client)
    (hstep : s.step (.broker i) = some t)
    (hown : ∀ a fds, i = .dispatch a → s.broker.pc ≠ .dispatch (index + 1) fds)
    (hstays : t.broker.pc ≠ .returned) : Passed s t c := by
  obtain ⟨hsucceed, hbroker, -⟩ := stepBroker_eq_some hstep
  rw [hbroker] at hstays
  obtain ⟨hquiet, index', hseat', hplace⟩ :=
    hs.broker.step_passesBy hs.truthful.unlimited hseat i hown hstays
  obtain ⟨hwaiting, -, hnone⟩ := channel_of_quiet hstep hquiet
  rw [← hbroker] at hseat' hplace
  refine ⟨hnone, hwaiting, ⟨index', client, hseat'⟩, ?_⟩
  rintro ⟨j, fds, index₁, client₁, entry, hpc, hseat₁, hbelow, hentry, hpollin⟩
  obtain rfl := hs.broker.seated_once hseat hseat₁
  cases i with
  | signal =>
      have hpc' : t.broker.pc = .dispatch j fds := by
        rw [hbroker]
        exact hpc
      have hsame : index' = index₁ := by
        refine hplace.resolve_right ?_
        rintro ⟨j', fds', hbefore, hafter, -⟩
        rw [hbefore] at hpc
        rw [hpc'] at hafter
        cases hpc
        injection hafter with hj
        omega
      exact ⟨j, fds, index', client, entry, hpc', hseat', by omega, hsame ▸ hentry, hpollin⟩
  | dispatch a =>
      cases j with
      | zero => exact absurd hbelow (Nat.not_lt_zero _)
      | succ j =>
          have hpc' : t.broker.pc = .dispatch j fds := by
            rw [hbroker]
            simp only [Broker.step, hpc]
          have hne : index₁ ≠ j := by
            rintro rfl
            exact hown a fds rfl hpc
          have hsame : index' = index₁ := by
            refine hplace.resolve_right ?_
            rintro ⟨j', fds', hbefore, -, hle, -⟩
            rw [hpc] at hbefore
            injection hbefore with hj
            omega
          exact ⟨j, fds, index', client, entry, hpc', hseat', by omega, hsame ▸ hentry, hpollin⟩
  | head reallocated poll =>
      rw [(head_cases hs.truthful.unlimited hsucceed).1] at hpc
      cases hpc
  | accept a =>
      obtain ⟨events, haccept⟩ := (accept_cases hs.truthful hsucceed).1
      rw [haccept] at hpc
      cases hpc
  | leave =>
      unfold callsSucceed at hsucceed
      rw [hpc] at hsucceed
      cases hsucceed

/-- A step of the broker passes `c` by, or hears its next message. -/
theorem passed_or_heard {i : Input} {index : Nat} {client : ClientConnection}
    (hs : s.Reachable) (hx : Offered s.broker.kernel.fds s.broker.generation x)
    (hseat : s.broker.Seated c index client) (hup : (s.channels c).peerClosed = false)
    (hstep : s.step (.broker i) = some t) (hstays : t.broker.pc ≠ .returned) :
    Passed s t c ∨ ∃ a d, i = .dispatch a ∧ Heard x s t c d a.sent := by
  by_cases hown : ∀ a fds, i = .dispatch a → s.broker.pc ≠ .dispatch (index + 1) fds
  · exact .inl (passed_of_step hs hseat hstep hown hstays)
  · push Not at hown
    obtain ⟨a, fds, rfl, hpc⟩ := hown
    obtain ⟨hsucceed, hbroker, habsorb⟩ := stepBroker_eq_some hstep
    obtain ⟨entry, hentry, hfailed, hreadable⟩ :=
      hs.truthful.polled _ fds c index client hpc hseat (Nat.lt_succ_self _) hup
    obtain ⟨hpc', said, keep, hlog, hidle, htaken, hkept⟩ :=
      Broker.step_own hx hs.truthful.unlimited hseat hpc hentry hfailed a
    rw [← hbroker] at hpc' hlog hkept
    have hnew := Broker.newEvents_of_log hlog
    cases hpollin : entry.revents.pollin with
    | false =>
        left
        obtain ⟨rfl, rfl⟩ := hidle hpollin
        have hquiet : s.broker.Quiet (s.broker.step (.dispatch a)) c := by
          rw [← hbroker]
          exact ⟨_, hlog, rfl⟩
        obtain ⟨hwaiting, -, hnone⟩ := channel_of_quiet hstep hquiet
        obtain ⟨served, hseated⟩ := hkept rfl
        refine ⟨hnone, hwaiting, ⟨index, served, hseated⟩, ?_⟩
        rintro ⟨j, fds', index₁, client₁, entry₁, hpc₁, hseat₁, -, hentry₁, hpollin₁⟩
        obtain rfl := hs.broker.seated_once hseat hseat₁
        rw [hpc] at hpc₁
        cases hpc₁
        rw [hentry] at hentry₁
        cases hentry₁
        rw [hpollin] at hpollin₁
        cases hpollin₁
    | true =>
        right
        have hreturns : s.recvReturns index fds a = true := by
          obtain ⟨fds', hzero⟩ | ⟨j, fds', hplace, hreturns⟩ := dispatch_cases hsucceed
          · rw [hpc] at hzero
            cases hzero
          · rw [hpc] at hplace
            cases hplace
            exact hreturns
        unfold recvReturns at hreturns
        rw [hseat.slot, Option.all_some, channelOf_seated hseat, Option.all_some, hentry,
          Option.elim_some, hpollin, hup] at hreturns
        cases hrecv : a.recv with
        | error =>
            rw [hrecv] at hreturns
            cases hreturns
        | datagram d =>
            obtain ⟨rfl, rfl⟩ := htaken hpollin d hrecv
            have htakenFrom : takenFrom c (s.broker.newEvents t.broker) = [d] := by
              rw [hnew]
              exact Offer.takenFrom_exchange
            have hdrains := (absorbed habsorb c).toBroker
            rw [← hbroker, htakenFrom, hup] at hdrains
            have hwaiting : (s.channels c).toBroker = d :: (t.channels c).toBroker := by
              refine hdrains.single.resolve_right ?_
              rintro ⟨-, -, -, hclosed⟩
              cases hclosed
            have hsaid : concerning c (s.broker.newEvents t.broker) =
                s.broker.newEvents t.broker := by
              apply concerning_own
              intro e he
              rw [hnew] at he
              rcases List.mem_append.mp he with hexchange | hclosed
              · exact Offer.exchange_own hexchange
              · split at hclosed
                · cases hclosed
                · rw [List.mem_singleton.mp hclosed]
                  rfl
            refine ⟨a, d, rfl, hwaiting, hnew, hsaid, htakenFrom, ?_⟩
            intro hkeep
            obtain ⟨served, hseated⟩ := hkept hkeep
            exact ⟨index, served, hseated⟩

/-! ### Runs -/

/-- How often `poll` returned. -/
def polls (labels : List Label) : Nat :=
  labels.countP fun
    | .broker (.head _ (.ready _)) => true
    | _ => false

/-- What the peer of `c` said. -/
def spoken (c : ConnId) (labels : List Label) : List (List UInt8) :=
  labels.flatMap fun
    | .peer c' act => if c' = c then act.words else []
    | .broker _ => []

variable {labels : List Label} {label : Label}

theorem log_of_run (hs : s.Reachable) (h : Run s labels t) :
    ∃ more, t.broker.kernel.log = s.broker.kernel.log ++ more := by
  obtain ⟨inputs, hrun⟩ := run_broker h
  obtain ⟨events, hledger⟩ := hs.broker.run_refines hrun
  exact ⟨_, hledger.log_eq⟩

theorem newEvents_next (hs : s.Reachable) (h : Run s labels t) (hstep : Step t label u) :
    s.broker.newEvents u.broker = s.broker.newEvents t.broker ++ t.broker.newEvents u.broker := by
  obtain ⟨first, hfirst⟩ := log_of_run hs h
  obtain ⟨second, hsecond⟩ := log_of_run (hs.extend h) (Execution.Run.single hstep)
  rw [Broker.newEvents_of_log hfirst, Broker.newEvents_of_log hsecond]
  apply Broker.newEvents_of_log
  rw [hsecond, hfirst, List.append_assoc]

theorem up_before (hstep : Step t label u) (hup : (u.channels c).peerClosed = false) :
    (t.channels c).peerClosed = false := by
  cases label with
  | broker i =>
      obtain ⟨-, -, habsorb⟩ := stepBroker_eq_some (i := i) hstep
      rw [← (absorbed habsorb c).peerClosed]
      exact hup
  | peer c' act =>
      obtain ⟨-, ch, hch, hchannels⟩ := step_peer hstep
      by_cases heq : c = c'
      · subst heq
        rw [hchannels, Function.update_self] at hup
        exact (apply_waiting hch).1 hup
      · rwa [hchannels, Function.update_of_ne heq] at hup

theorem leaving_before (hstep : Step t label u) (hruns : u.broker.pc ≠ .returned)
    (hleaving : u.broker.pc ≠ .leaving) : t.broker.pc ≠ .leaving := by
  intro hpc
  cases label with
  | broker i =>
      rw [(stepBroker_eq_some (i := i) hstep).2.1] at hruns hleaving
      cases i with
      | signal => exact hleaving hpc
      | head | dispatch | accept => exact hleaving (by simp [Broker.step, hpc])
      | leave => exact hruns (by simp [Broker.step, hpc, Broker.leave])
  | peer c' act =>
      rw [(step_peer hstep).1] at hleaving
      exact hleaving hpc

theorem runs_before (hstep : Step t label u) (hruns : u.broker.pc ≠ .returned) :
    t.broker.pc ≠ .returned := by
  intro hreturned
  apply hruns
  cases label with
  | broker i =>
      rw [(stepBroker_eq_some (i := i) hstep).2.1]
      exact Broker.returned_kept hreturned i
  | peer c' act =>
      rw [(step_peer hstep).1]
      exact hreturned

/-- What a run has come to for the connection `c`: it is still served, and every message it sent
was answered, or it was closed after the last message that was. -/
inductive Standing (x : Offer) (s t : Crowd) (c : ConnId) : Prop
  | serving : (∃ index client, t.broker.Seated c index client) →
      (outcomes c (s.broker.newEvents t.broker)).length =
        (takenFrom c (s.broker.newEvents t.broker)).length →
      (∀ sends, SentAs c (s.broker.newEvents t.broker) sends →
        x.outlives c sends 0 (takenFrom c (s.broker.newEvents t.broker)) = true) →
      Standing x s t c
  | closed : Event.closed (.conn c) ∈ s.broker.newEvents t.broker →
      (∀ sends, SentAs c (s.broker.newEvents t.broker) sends →
        x.outlives c sends 0 (takenFrom c (s.broker.newEvents t.broker)) = false) →
      Standing x s t c

/-- What a run has come to for the messages of `c`. -/
structure Attended (s : Crowd) (c : ConnId) (labels : List Label) (t : Crowd) : Prop where
  /-- They are handled in order, each once, and those that were not are waiting. -/
  order : takenFrom c (s.broker.newEvents t.broker) ++ (t.channels c).toBroker =
    (s.channels c).toBroker ++ spoken c labels
  talk : ∀ sends, SentAs c (s.broker.newEvents t.broker) sends →
    concerning c (s.broker.newEvents t.broker) =
      s.broker.offer.conversation c sends 0 (takenFrom c (s.broker.newEvents t.broker))
  standing : Standing s.broker.offer s t c

theorem attended_start {index : Nat} {client : ClientConnection}
    (hseat : s.broker.Seated c index client) : Attended s c [] s := by
  have hnew : s.broker.newEvents s.broker = [] := by
    rw [Broker.newEvents, List.drop_length]
  refine ⟨?_, ?_, .serving ⟨index, client, hseat⟩ ?_ ?_⟩
  · rw [hnew]
    exact (List.append_nil _).symm
  · intro sends _
    rw [hnew]
    rfl
  · rw [hnew]
    rfl
  · intro sends _
    rw [hnew]
    rfl

/-- A step that passes `c` by leaves all that as it is. -/
theorem Attended.pass (h : Attended s c labels t) (hs : s.Reachable) (hrun : Run s labels t)
    (hstep : Step t label u) (hquiet : concerning c (t.broker.newEvents u.broker) = [])
    (hwaiting : (u.channels c).toBroker = (t.channels c).toBroker ++ spoken c [label])
    (hseated : (∃ index client, t.broker.Seated c index client) →
      ∃ index client, u.broker.Seated c index client) : Attended s c (labels ++ [label]) u := by
  have hnew := newEvents_next hs hrun hstep
  have htaken : takenFrom c (s.broker.newEvents u.broker) =
      takenFrom c (s.broker.newEvents t.broker) := by
    rw [hnew, takenFrom_append, takenFrom_of_quiet hquiet, List.append_nil]
  have houtcomes : outcomes c (s.broker.newEvents u.broker) =
      outcomes c (s.broker.newEvents t.broker) := by
    rw [hnew, outcomes_append, outcomes_of_quiet hquiet, List.append_nil]
  have hsent : ∀ sends, SentAs c (s.broker.newEvents u.broker) sends →
      SentAs c (s.broker.newEvents t.broker) sends := by
    intro sends hsends
    unfold SentAs at hsends ⊢
    rwa [← houtcomes]
  have hspoken : spoken c (labels ++ [label]) = spoken c labels ++ spoken c [label] :=
    List.flatMap_append
  refine ⟨?_, ?_, ?_⟩
  · rw [htaken, hwaiting, hspoken, ← List.append_assoc, h.order, List.append_assoc]
  · intro sends hsends
    rw [htaken, hnew, concerning_append, hquiet, List.append_nil]
    exact h.talk sends (hsent sends hsends)
  · cases h.standing with
    | serving hseat hlength houtlives =>
        refine .serving (hseated hseat) ?_ ?_
        · rw [houtcomes, htaken]
          exact hlength
        · intro sends hsends
          rw [htaken]
          exact houtlives sends (hsent sends hsends)
    | closed hclosed hends =>
        refine .closed ?_ ?_
        · rw [hnew]
          exact List.mem_append_left _ hclosed
        · intro sends hsends
          rw [htaken]
          exact hends sends (hsent sends hsends)

/-- Hearing the next message continues the conversation. -/
theorem Attended.hear {a : Answers} {d : List UInt8} (h : Attended s c labels t)
    (hs : s.Reachable) (hrun : Run s labels t) (hstep : Step t (.broker (.dispatch a)) u)
    (hseat : ∃ index client, t.broker.Seated c index client)
    (hheard : Heard s.broker.offer t u c d a.sent) :
    Attended s c (labels ++ [.broker (.dispatch a)]) u := by
  have hnew := newEvents_next hs hrun hstep
  have htaken : takenFrom c (s.broker.newEvents u.broker) =
      takenFrom c (s.broker.newEvents t.broker) ++ [d] := by
    rw [hnew, takenFrom_append, hheard.taken]
  have hspoken : spoken c (labels ++ [.broker (.dispatch a)]) = spoken c labels := by
    unfold spoken
    rw [List.flatMap_append]
    exact List.append_nil _
  obtain ⟨hlength, houtlives⟩ : (outcomes c (s.broker.newEvents t.broker)).length =
      (takenFrom c (s.broker.newEvents t.broker)).length ∧
        ∀ sends, SentAs c (s.broker.newEvents t.broker) sends →
          s.broker.offer.outlives c sends 0 (takenFrom c (s.broker.newEvents t.broker)) = true := by
    cases h.standing with
    | serving _ hlength houtlives => exact ⟨hlength, houtlives⟩
    | closed hclosed _ =>
        obtain ⟨index, client, hconn⟩ := hseat
        have ht : t.Reachable := hs.extend hrun
        have hopen := (ht.broker.tidied.conn_open _ _ hconn.conn).2
        exact absurd (List.mem_of_mem_drop hclosed) hopen
  -- the answer is the one the record of sends foretells
  have hanswer : ∀ sends, SentAs c (s.broker.newEvents u.broker) sends →
      SentAs c (s.broker.newEvents t.broker) sends ∧
        s.broker.offer.exchange c d
          (sends (0 + (takenFrom c (s.broker.newEvents t.broker)).length)) =
            s.broker.offer.exchange c d a.sent := by
    intro sends hsends
    rw [hnew] at hsends
    refine ⟨hsends.before, ?_⟩
    rw [hheard.events] at hsends
    rw [Nat.zero_add, ← hlength]
    exact Offer.exchange_sent hsends
  refine ⟨?_, ?_, ?_⟩
  · rw [htaken, hspoken, List.append_assoc, List.singleton_append, ← hheard.waiting]
    exact h.order
  · intro sends hsends
    obtain ⟨hbefore, hexchange⟩ := hanswer sends hsends
    rw [htaken, Offer.conversation_of_outlives (houtlives sends hbefore), hnew, concerning_append,
      h.talk sends hbefore, hheard.own, hheard.events]
    simp only [Offer.conversation, hexchange]
  · have hlast : ∀ sends, SentAs c (s.broker.newEvents u.broker) sends →
        s.broker.offer.outlives c sends 0 (takenFrom c (s.broker.newEvents u.broker)) =
          (s.broker.offer.exchange c d a.sent).2 := by
      intro sends hsends
      obtain ⟨hbefore, hexchange⟩ := hanswer sends hsends
      rw [htaken, Offer.outlives_append, houtlives sends hbefore, Bool.true_and]
      simp only [Offer.outlives, hexchange, Bool.and_true]
    cases hkeep : (s.broker.offer.exchange c d a.sent).2 with
    | true =>
        refine .serving (hheard.seated hkeep) ?_ ?_
        · rw [htaken, hnew, outcomes_append, hheard.events, hkeep, if_pos rfl, List.append_nil,
            Offer.outcomes_exchange hkeep, List.length_append, List.length_append, hlength]
          rfl
        · intro sends hsends
          rw [hlast sends hsends, hkeep]
    | false =>
        refine .closed ?_ ?_
        · rw [hnew, hheard.events, hkeep]
          simp
        · intro sends hsends
          rw [hlast sends hsends, hkeep]

theorem Attended.peer {c' : ConnId} {act : PeerAct} (h : Attended s c labels t) (hs : s.Reachable)
    (hrun : Run s labels t) (hstep : Step t (.peer c' act) u) :
    Attended s c (labels ++ [.peer c' act]) u := by
  obtain ⟨hbroker, ch, hch, hchannels⟩ := step_peer hstep
  refine h.pass hs hrun hstep ?_ ?_ ?_
  · rw [hbroker, Broker.newEvents, List.drop_length]
    rfl
  · simp only [spoken, List.flatMap_singleton]
    by_cases heq : c' = c
    · subst heq
      rw [hchannels, Function.update_self, if_pos rfl]
      exact (apply_waiting hch).2
    · rw [hchannels, Function.update_of_ne (Ne.symm heq), if_neg heq, List.append_nil]
  · rw [hbroker]
    exact id

/-- What is permanent in the deployment. -/
theorem Reachable.ready_run (hs : s.Reachable) (hready : s.broker.generation.state = .ready)
    (hrun : Run s labels t) (hstays : t.broker.pc ≠ .returned) :
    t.broker.generation = s.broker.generation ∧
      Offered t.broker.kernel.fds t.broker.generation s.broker.offer := by
  obtain ⟨inputs, hinputs⟩ := run_broker hrun
  have hbroker : Broker.Reachable s.broker := Reachable.broker hs
  exact (hbroker.ready_run hready hinputs).resolve_left hstays

theorem Attended.broker {i : Input} (h : Attended s c labels t) (hs : s.Reachable)
    (hready : s.broker.generation.state = .ready) (hrun : Run s labels t)
    (hup : (t.channels c).peerClosed = false) (hstep : Step t (.broker i) u)
    (hstays : u.broker.pc ≠ .returned) : Attended s c (labels ++ [.broker i]) u := by
  have ht : t.Reachable := hs.extend hrun
  cases h.standing with
  | serving hseat =>
      obtain ⟨index, client, hseated⟩ := hseat
      obtain ⟨-, hx⟩ := hs.ready_run hready hrun (runs_before hstep hstays)
      rcases passed_or_heard ht hx hseated hup hstep hstays with hpassed | ⟨a, d, rfl, hheard⟩
      · refine h.pass hs hrun hstep hpassed.quiet ?_ fun _ => hpassed.seated
        rw [hpassed.waiting]
        exact (List.append_nil _).symm
      · exact h.hear hs hrun hstep ⟨index, client, hseated⟩ hheard
  | closed hclosed =>
      obtain ⟨more, hlog⟩ := log_of_run ht (Execution.Run.single hstep)
      have hbroker := (stepBroker_eq_some (i := i) hstep).2.1
      have hquiet : t.broker.Quiet (t.broker.step i) c := by
        have hu : u.Reachable := ht.extend (.single hstep)
        rw [← hbroker]
        exact ⟨more, hlog, hu.broker.quiet_of_closed hlog (List.mem_of_mem_drop hclosed)⟩
      obtain ⟨hwaiting, -, hnone⟩ := channel_of_quiet hstep hquiet
      refine h.pass hs hrun hstep hnone ?_ ?_
      · rw [hwaiting]
        exact (List.append_nil _).symm
      · rintro ⟨index, client, hseated⟩
        exact absurd (List.mem_of_mem_drop hclosed) (ht.broker.tidied.conn_open _ _ hseated.conn).2

/-- Whatever the others do, the messages of `c` are attended to. -/
theorem attended_run {index : Nat} {client : ClientConnection} (hs : s.Reachable)
    (hready : s.broker.generation.state = .ready) (hseat : s.broker.Seated c index client)
    (hrun : Run s labels t) (hup : (t.channels c).peerClosed = false)
    (hstays : t.broker.pc ≠ .returned) : Attended s c labels t := by
  induction hrun with
  | start => exact attended_start hseat
  | @next labels t label u hbefore hlast ih =>
      have hup' := up_before hlast hup
      have hattended := ih hup' (runs_before hlast hstays)
      cases label with
      | peer c' act => exact hattended.peer hs hbefore hlast
      | broker i => exact hattended.broker hs hready hbefore hup' hlast hstays

end Crowd

end Hyperglyph
