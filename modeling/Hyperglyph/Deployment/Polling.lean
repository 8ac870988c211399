import Hyperglyph.Broker.ClientLimit
import Hyperglyph.Deployment.Conversation
import Hyperglyph.Deployment.Crowd

/-! What `poll` reported of a connection is still true when the loop comes to act on it. -/
namespace Hyperglyph

/-- Who is not concerned has not been heard. -/
theorem takenFrom_of_quiet {c : ConnId} {events : List Event} (h : concerning c events = []) :
    takenFrom c events = [] := by
  apply List.eq_nil_iff_forall_not_mem.mpr
  intro d hd
  have hmem : Event.received c d ∈ concerning c events :=
    List.mem_filter.mpr ⟨mem_takenFrom.mp hd, decide_eq_true rfl⟩
  rw [h] at hmem
  cases hmem

namespace Broker

variable {b : Broker} {c : ConnId} {index j : Nat} {client : ClientConnection}

/-- Below the place where the loop stands, the array is what it was. -/
theorem Reachable.seated_below (h : Reachable b) {fds : List PollFd}
    (hpc : b.pc = .dispatch (j + 1) fds) {a : Answers}
    (hseat : (b.step (.dispatch a)).Seated c index client) (hbelow : index < j) :
    b.Seated c index client := by
  have hslot : b.clients[index]? = some client := by
    have hafter : (b.step (.dispatch a)).clients =
        (b.dispatchClient j ((fds[j + 1]?).elim .clear (·.revents)) a).clients := by
      simp only [step, hpc]
    have hstands := hseat.slot
    rw [hafter] at hstands
    cases hother : b.clients[j]? with
    | none =>
        rw [show b.dispatchClient j ((fds[j + 1]?).elim .clear (·.revents)) a = b by
          simp only [dispatchClient, hother]] at hstands
        exact hstands
    | some other =>
        obtain ⟨-, hclients⟩ := @dispatchClient_turn b j
          ⟨other, ⟨other.fd, (fds[j + 1]?).elim .clear (·.revents)⟩⟩ hother a
        rw [hclients] at hstands
        split at hstands
        · rwa [List.getElem?_set_ne (by omega)] at hstands
        · rwa [SwapRemove.getElem?_swapRemove_of_lt (List.getElem?_eq_some_iff.mp hother).1 hbelow]
            at hstands
  obtain ⟨c', hc'⟩ := h.inv.clients_open client (List.mem_of_getElem? hslot)
  have hsettled := h.inv.step_settles (.dispatch a) client.fd _ _ hc' hseat.conn
  exact ⟨hslot, hc'.trans (congrArg some hsettled.symm)⟩

end Broker

namespace Crowd

variable {s t : Crowd} {c : ConnId}

/-- What the loop knows of the connections it has still to look at is true of them, and it leaves
only when it is told to. -/
structure Truthful (s : Crowd) : Prop where
  unlimited : s.broker.maxClients = 0
  listener : ∀ events, s.broker.pc = .accept events → events.failed = false
  first : ∀ j fds, s.broker.pc = .dispatch j fds →
    ((fds[0]?).elim Revents.clear (·.revents)).failed = false
  polled : ∀ j fds c index client, s.broker.pc = .dispatch j fds →
    s.broker.Seated c index client → index < j → (s.channels c).peerClosed = false →
      ∃ entry, fds[index + 1]? = some entry ∧ entry.revents.failed = false ∧
        (entry.revents.pollin = true → (s.channels c).toBroker ≠ [])
  told : s.broker.pc = .leaving ∨ s.broker.pc = .returned → s.broker.stopping = true

theorem channelOf_seated {index : Nat} {client : ClientConnection}
    (h : s.broker.Seated c index client) : s.channelOf client = some (s.channels c) := by
  unfold channelOf
  rw [h.conn]

theorem pollReports_seated {revents : List Revents} (h : s.pollReports revents = true) {index : Nat}
    {client : ClientConnection} (hseat : s.broker.Seated c index client)
    (hup : (s.channels c).peerClosed = false) :
    (revents.getD (index + 1) .clear).failed = false ∧
      ((revents.getD (index + 1) .clear).pollin = true ↔ (s.channels c).toBroker ≠ []) := by
  unfold pollReports at h
  rw [Bool.and_eq_true_iff, List.all_eq_true] at h
  have hmem : (client, index) ∈ s.broker.clients.zipIdx :=
    List.mem_zipIdx_iff_getElem?.mpr hseat.slot
  have htrue : (s.channelOf client).all
      (fun ch => reportsTruly ch (revents.getD (index + 1) .clear)) = true := h.2 _ hmem
  rw [channelOf_seated hseat] at htrue
  simp only [Option.all_some, reportsTruly, hup, Bool.false_or, Bool.and_eq_true_iff, beq_iff_eq,
    Bool.not_eq_true'] at htrue
  refine ⟨htrue.2, ?_⟩
  rw [htrue.1]
  simp

/-- The entry of a connection in the table that `poll` filled. -/
theorem polled_entry {revents : List Revents} (h : s.pollReports revents = true) {index : Nat}
    {client : ClientConnection} (hseat : s.broker.Seated c index client)
    (hup : (s.channels c).peerClosed = false) :
    ∃ entry, (s.broker.pollFds revents)[index + 1]? = some entry ∧ entry.revents.failed = false ∧
      (entry.revents.pollin = true ↔ (s.channels c).toBroker ≠ []) := by
  obtain ⟨hfailed, hreadable⟩ := pollReports_seated h hseat hup
  have hpos : ¬ client.fd < 0 := Int.not_lt.mpr (DescriptorTable.nonneg_of_get hseat.conn)
  refine ⟨_, Broker.pollFds_succ s.broker revents hseat.slot, ?_, ?_⟩
  · rw [if_neg hpos]
    exact hfailed
  · rw [if_neg hpos]
    exact hreadable

/-- What a peer does to its own connection leaves its messages waiting. -/
theorem apply_waiting {ch ch' : Channel} {act : PeerAct} (h : act.apply ch = some ch') :
    (ch'.peerClosed = false → ch.peerClosed = false) ∧
      ch'.toBroker = ch.toBroker ++ act.words := by
  cases act with
  | connect =>
      simp only [PeerAct.apply] at h
      split at h
      · cases h
      · cases h
        exact ⟨id, (List.append_nil _).symm⟩
  | say d =>
      simp only [PeerAct.apply] at h
      split at h
      · cases h
        exact ⟨id, rfl⟩
      · cases h
  | read delivery =>
      cases h
      refine ⟨?_, ?_⟩
      · rw [Channel.receive_peerClosed]
        exact id
      · rw [Channel.receive_toBroker]
        exact (List.append_nil _).symm
  | hangUp =>
      simp only [PeerAct.apply] at h
      split at h
      · cases h
        refine ⟨?_, (List.append_nil _).symm⟩
        intro hup
        cases hup
      · cases h

theorem Truthful.peer {act : PeerAct} (h : s.Truthful) (hstep : s.step (.peer c act) = some t) :
    t.Truthful := by
  obtain ⟨hbroker, ch, hch, hchannels⟩ := step_peer hstep
  obtain ⟨hup, hwaiting⟩ := apply_waiting hch
  refine ⟨?_, ?_, ?_, ?_, ?_⟩
  · rw [hbroker]
    exact h.unlimited
  · rw [hbroker]
    exact h.listener
  · rw [hbroker]
    exact h.first
  · intro j fds c' index client hpc hseat hbelow hup'
    rw [hbroker] at hpc hseat
    by_cases heq : c' = c
    · subst heq
      rw [hchannels, Function.update_self] at hup' ⊢
      obtain ⟨entry, hentry, hfailed, hreadable⟩ := h.polled j fds c' index client hpc hseat hbelow
        (hup hup')
      refine ⟨entry, hentry, hfailed, fun hpollin => ?_⟩
      rw [hwaiting]
      exact List.append_ne_nil_of_left_ne_nil (hreadable hpollin) act.words
    · rw [hchannels, Function.update_of_ne heq] at hup' ⊢
      exact h.polled j fds c' index client hpc hseat hbelow hup'
  · rw [hbroker]
    exact h.told

/-- With room in its array, the loop gets to `poll`. -/
theorem growAndPoll_polls {b : Broker} (hroom : b.clients.length < sizeMax / sizeofPollFd)
    (poll : PollAnswer) :
    b.growAndPoll true poll =
      let b := { b with pollCapacity := max b.pollCapacity (b.clients.length + 1) }
      match poll with
      | .interrupted => { b with pc := .top }
      | .error => b.fail
      | .ready revents => { b with pc := .dispatch b.clients.length (b.pollFds revents) } := by
  have hfits : ¬ (b.clients.length + 1 > sizeMax / sizeofPollFd) := by omega
  have hcount : b.clients.length ≠ sizeMax := by
    have hle : sizeMax / sizeofPollFd ≤ sizeMax := Nat.div_le_self _ _
    omega
  unfold Broker.growAndPoll
  rw [if_neg hcount]
  cases poll <;> exact if_neg fun hgrow => hgrow.2.elim hfits Bool.false_ne_true

/-- The head of the loop: it leaves when told to, and otherwise polls. -/
theorem head_cases (hmax : s.broker.maxClients = 0) {reallocated : Bool} {poll : PollAnswer}
    (h : s.callsSucceed (.head reallocated poll) = true) :
    let b := s.broker.step (.head reallocated poll)
    s.broker.pc = .top ∧ b.kernel = s.broker.kernel ∧ b.clients = s.broker.clients ∧
      b.stopping = s.broker.stopping ∧ b.maxClients = s.broker.maxClients ∧
      (b.pc = .leaving ∧ s.broker.stopping = true ∨ poll = .interrupted ∧ b.pc = .top ∨
        ∃ revents, poll = .ready revents ∧ s.pollReports revents = true ∧
          b.pc = .dispatch s.broker.clients.length (s.broker.pollFds revents)) := by
  unfold callsSucceed at h
  cases hpc : s.broker.pc with
  | top =>
      rw [hpc] at h
      simp only [Bool.and_eq_true_iff, decide_eq_true_iff] at h
      obtain ⟨⟨rfl, hroom⟩, hpoll⟩ := h
      simp only [Broker.step, hpc, Broker.loopHead, Broker.limitReached_of_unlimited hmax,
        Bool.false_eq_true, if_false]
      split
      · next hstop => exact ⟨trivial, rfl, rfl, rfl, rfl, .inl ⟨rfl, hstop⟩⟩
      · rw [growAndPoll_polls hroom]
        cases poll with
        | interrupted => exact ⟨trivial, rfl, rfl, rfl, rfl, .inr (.inl ⟨rfl, rfl⟩)⟩
        | error => cases hpoll
        | ready revents =>
            exact ⟨trivial, rfl, rfl, rfl, rfl, .inr (.inr ⟨revents, rfl, hpoll, rfl⟩)⟩
  | dispatch | accept | leaving | returned =>
      rw [hpc] at h
      cases h

/-- The end of a round: the loop goes back to its head. -/
theorem accept_cases (h : s.Truthful) {a : AcceptAnswers}
    (hsucceed : s.callsSucceed (.accept a) = true) :
    (∃ events, s.broker.pc = .accept events) ∧ (s.broker.step (.accept a)).pc = .top := by
  unfold callsSucceed at hsucceed
  cases hpc : s.broker.pc with
  | accept events =>
      rw [hpc] at hsucceed
      refine ⟨⟨events, rfl⟩, ?_⟩
      have hfailed := h.listener events hpc
      simp only [Broker.step, hpc, Broker.acceptClient]
      rw [hfailed]
      split
      · rfl
      · have hreturns : acceptReturns s.broker a = true := hsucceed
        unfold acceptReturns at hreturns
        cases haccepted : a.accepted with
        | none =>
            rw [haccepted] at hreturns
            have hretry : a.retry = true := hreturns
            simp only [Kernel.accept4, Int.reduceNeg, Int.reduceLT, if_true, hretry]
        | some p =>
            obtain ⟨n, c⟩ := p
            rw [haccepted] at hreturns
            simp only [Bool.and_eq_true_iff, decide_eq_true_iff] at hreturns
            obtain ⟨⟨hn, hfresh⟩, hroom⟩ := hreturns
            obtain ⟨added, hadd⟩ := Option.isSome_iff_exists.mp hroom
            rw [Kernel.accept4_of_fresh hn hfresh]
            dsimp only
            rw [if_neg (Int.not_lt.mpr (Int.natCast_nonneg n)), hadd]
            split <;> rfl
  | top | dispatch | leaving | returned =>
      rw [hpc] at hsucceed
      cases hsucceed

theorem dispatch_cases {a : Answers} (hsucceed : s.callsSucceed (.dispatch a) = true) :
    (∃ fds, s.broker.pc = .dispatch 0 fds) ∨
      ∃ j fds, s.broker.pc = .dispatch (j + 1) fds ∧ s.recvReturns j fds a = true := by
  unfold callsSucceed at hsucceed
  cases hpc : s.broker.pc with
  | dispatch j fds =>
      rw [hpc] at hsucceed
      cases j with
      | zero => exact .inl ⟨fds, rfl⟩
      | succ j => exact .inr ⟨j, fds, rfl, hsucceed⟩
  | top | accept | leaving | returned =>
      rw [hpc] at hsucceed
      cases hsucceed

/-- A connection the step passes by keeps its channel. -/
theorem channel_of_quiet {i : Input} (hstep : s.step (.broker i) = some t)
    (hquiet : s.broker.Quiet (s.broker.step i) c) :
    (t.channels c).toBroker = (s.channels c).toBroker ∧
      (t.channels c).peerClosed = (s.channels c).peerClosed ∧
      concerning c (s.broker.newEvents t.broker) = [] := by
  obtain ⟨-, hbroker, habsorb⟩ := stepBroker_eq_some hstep
  obtain ⟨more, hlog, hnone⟩ := hquiet
  have hnew := Broker.newEvents_of_log hlog
  have habsorbed := absorbed habsorb c
  have hdrains := habsorbed.toBroker
  rw [hnew, takenFrom_of_quiet hnone] at hdrains
  refine ⟨hdrains.of_nil, habsorbed.peerClosed, ?_⟩
  rw [hbroker, hnew]
  exact hnone

theorem Truthful.head {reallocated : Bool} {poll : PollAnswer} (h : s.Truthful)
    (hstep : s.step (.broker (.head reallocated poll)) = some t) : t.Truthful := by
  obtain ⟨hsucceed, hbroker, habsorb⟩ := stepBroker_eq_some hstep
  obtain ⟨hpc, hk, hclients, hstopping, hmax, hplace⟩ := head_cases h.unlimited hsucceed
  have hchannels : t.channels = s.channels := by
    rw [Broker.newEvents, hk, List.drop_length] at habsorb
    exact (Option.some_inj.mp habsorb).symm
  rw [← hbroker] at hk hclients hstopping hmax hplace
  have hentry : ∀ {j fds}, t.broker.pc = .dispatch j fds → ∃ revents,
      s.pollReports revents = true ∧ fds = s.broker.pollFds revents := by
    intro j fds hdispatch
    rcases hplace with ⟨hleaving, -⟩ | ⟨-, htop⟩ | ⟨revents, -, hreports, hpolled⟩
    · rw [hleaving] at hdispatch
      cases hdispatch
    · rw [htop] at hdispatch
      cases hdispatch
    · rw [hpolled] at hdispatch
      cases hdispatch
      exact ⟨revents, hreports, rfl⟩
  refine ⟨?_, ?_, ?_, ?_, ?_⟩
  · rw [hmax]
    exact h.unlimited
  · intro events haccept
    rcases hplace with ⟨hleaving, -⟩ | ⟨-, htop⟩ | ⟨revents, -, -, hpolled⟩
    · rw [hleaving] at haccept
      cases haccept
    · rw [htop] at haccept
      cases haccept
    · rw [hpolled] at haccept
      cases haccept
  · intro j fds hdispatch
    obtain ⟨revents, hreports, rfl⟩ := hentry hdispatch
    unfold pollReports at hreports
    obtain ⟨hlistener, -⟩ := Bool.and_eq_true_iff.mp hreports
    have hfirst : ((s.broker.pollFds revents)[0]?).elim Revents.clear (·.revents) =
        if s.broker.listenerFd < 0 then .clear else revents.getD 0 .clear := by
      simp [Broker.pollFds]
    rw [hfirst]
    split
    · rfl
    · exact Bool.not_eq_true' _ ▸ hlistener
  · intro j fds c index client hdispatch hseat _ hup
    obtain ⟨revents, hreports, rfl⟩ := hentry hdispatch
    have hseat' : s.broker.Seated c index client := by
      refine ⟨?_, ?_⟩
      · rw [← hclients]
        exact hseat.slot
      · rw [← hk]
        exact hseat.conn
    rw [hchannels] at hup ⊢
    obtain ⟨entry, hentry, hfailed, hreadable⟩ := polled_entry hreports hseat' hup
    exact ⟨entry, hentry, hfailed, hreadable.mp⟩
  · intro hgone
    rw [hstopping]
    rcases hplace with ⟨-, hstop⟩ | ⟨-, htop⟩ | ⟨revents, -, -, hpolled⟩
    · exact hstop
    · rw [htop] at hgone
      rcases hgone with hgone | hgone
      · cases hgone
      · cases hgone
    · rw [hpolled] at hgone
      rcases hgone with hgone | hgone
      · cases hgone
      · cases hgone

theorem Truthful.dispatch {a : Answers} (h : s.Truthful) (hs : Broker.Reachable s.broker)
    (hstep : s.step (.broker (.dispatch a)) = some t) : t.Truthful := by
  obtain ⟨hsucceed, hbroker, habsorb⟩ := stepBroker_eq_some hstep
  have hmax : t.broker.maxClients = 0 := by
    rw [hbroker, Broker.step_maxClients]
    exact h.unlimited
  rcases dispatch_cases hsucceed with ⟨fds, hpc⟩ | ⟨j, fds, hpc, -⟩
  · have hpc' : t.broker.pc = .accept ((fds[0]?).elim .clear (·.revents)) := by
      rw [hbroker]
      simp only [Broker.step, hpc]
    refine ⟨hmax, ?_, ?_, ?_, ?_⟩
    · intro events haccept
      rw [hpc'] at haccept
      cases haccept
      exact h.first 0 fds hpc
    · intro j' fds' hdispatch
      rw [hpc'] at hdispatch
      cases hdispatch
    · intro j' fds' c index client hdispatch
      rw [hpc'] at hdispatch
      cases hdispatch
    · rintro (hgone | hgone) <;> rw [hpc'] at hgone <;> cases hgone
  · have hpc' : t.broker.pc = .dispatch j fds := by
      rw [hbroker]
      simp only [Broker.step, hpc]
    refine ⟨hmax, ?_, ?_, ?_, ?_⟩
    · intro events haccept
      rw [hpc'] at haccept
      cases haccept
    · intro j' fds' hdispatch
      rw [hpc'] at hdispatch
      cases hdispatch
      exact h.first (j + 1) fds hpc
    · intro j' fds' c index client hdispatch hseat hbelow hup
      rw [hpc'] at hdispatch
      cases hdispatch
      rw [hbroker] at hseat
      have hbefore := hs.seated_below hpc hseat hbelow
      obtain ⟨hquiet, -⟩ := hs.step_passesBy h.unlimited hbefore (.dispatch a)
        (by
          intro _ fds' _ hown
          rw [hpc] at hown
          cases hown
          exact Nat.lt_irrefl _ hbelow)
        (by
          rw [← hbroker, hpc']
          exact Pc.noConfusion)
      obtain ⟨hwaiting, hclosed, -⟩ := channel_of_quiet hstep hquiet
      rw [hclosed] at hup
      rw [hwaiting]
      exact h.polled (j + 1) fds c index client hpc hbefore (by omega) hup
    · rintro (hgone | hgone) <;> rw [hpc'] at hgone <;> cases hgone

theorem Truthful.accept {a : AcceptAnswers} (h : s.Truthful)
    (hstep : s.step (.broker (.accept a)) = some t) : t.Truthful := by
  obtain ⟨hsucceed, hbroker, habsorb⟩ := stepBroker_eq_some hstep
  obtain ⟨-, hpc⟩ := accept_cases h hsucceed
  rw [← hbroker] at hpc
  refine ⟨?_, ?_, ?_, ?_, ?_⟩
  · rw [hbroker, Broker.step_maxClients]
    exact h.unlimited
  · intro events haccept
    rw [hpc] at haccept
    cases haccept
  · intro j fds hdispatch
    rw [hpc] at hdispatch
    cases hdispatch
  · intro j fds c index client hdispatch
    rw [hpc] at hdispatch
    cases hdispatch
  · rintro (hgone | hgone) <;> rw [hpc] at hgone <;> cases hgone

theorem closeAll_stopping (n : Nat) (b : Broker) : (b.closeAll n).stopping = b.stopping := by
  induction n generalizing b with
  | zero => rfl
  | succ index ih => exact ih (b.closeClient index)

theorem leave_stopping (b : Broker) : b.leave.stopping = b.stopping := by
  have hlistener : ∀ b : Broker, b.closeListener.stopping = b.stopping := by
    intro b
    unfold Broker.closeListener
    split <;> rfl
  exact (hlistener _).trans (closeAll_stopping _ b)

theorem Truthful.leave (h : s.Truthful) (hstep : s.step (.broker .leave) = some t) :
    t.Truthful := by
  obtain ⟨hsucceed, hbroker, habsorb⟩ := stepBroker_eq_some hstep
  have hleaving : s.broker.pc = .leaving := by
    unfold callsSucceed at hsucceed
    cases hpc : s.broker.pc with
    | leaving => rfl
    | top | dispatch | accept | returned =>
        rw [hpc] at hsucceed
        cases hsucceed
  have hleave : t.broker = s.broker.leave := by
    rw [hbroker]
    simp only [Broker.step, hleaving]
  have hpc : t.broker.pc = .returned := by
    rw [hleave]
    rfl
  refine ⟨?_, ?_, ?_, ?_, ?_⟩
  · rw [hbroker, Broker.step_maxClients]
    exact h.unlimited
  · intro events haccept
    rw [hpc] at haccept
    cases haccept
  · intro j fds hdispatch
    rw [hpc] at hdispatch
    cases hdispatch
  · intro j fds c index client hdispatch
    rw [hpc] at hdispatch
    cases hdispatch
  · intro _
    rw [hleave, leave_stopping]
    exact h.told (.inl hleaving)

theorem Truthful.signal (h : s.Truthful) (hstep : s.step (.broker .signal) = some t) :
    t.Truthful := by
  obtain ⟨-, hbroker, habsorb⟩ := stepBroker_eq_some (i := .signal) hstep
  have hchannels : t.channels = s.channels := by
    rw [Broker.newEvents, show (s.broker.step .signal).kernel = s.broker.kernel from rfl,
      List.drop_length] at habsorb
    exact (Option.some_inj.mp habsorb).symm
  refine ⟨?_, ?_, ?_, ?_, ?_⟩
  · rw [hbroker]
    exact h.unlimited
  · rw [hbroker]
    exact h.listener
  · rw [hbroker]
    exact h.first
  · intro j fds c index client hpc hseat
    rw [hbroker] at hpc hseat
    rw [hchannels]
    exact h.polled j fds c index client hpc ⟨hseat.slot, hseat.conn⟩
  · rw [hbroker]
    exact fun _ => rfl

theorem Reachable.truthful (h : s.Reachable) : s.Truthful := by
  refine Execution.Reachable.invariant_with (I := Truthful) ?_ ?_ h
  · rintro s ⟨listenerFd, rfl⟩
    refine ⟨rfl, ?_, ?_, ?_, ?_⟩
    · intro events haccept
      cases haccept
    · intro j fds hdispatch
      cases hdispatch
    · intro j fds c index client hdispatch
      cases hdispatch
    · rintro (hgone | hgone) <;> cases hgone
  · intro s label t hs htruthful hstep
    cases label with
    | peer c act => exact htruthful.peer hstep
    | broker i =>
        cases i with
        | signal => exact htruthful.signal hstep
        | head reallocated poll => exact htruthful.head hstep
        | dispatch a => exact htruthful.dispatch (Reachable.broker hs) hstep
        | accept a => exact htruthful.accept hstep
        | leave => exact htruthful.leave hstep

end Crowd

end Hyperglyph
