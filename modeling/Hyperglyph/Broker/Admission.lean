import Hyperglyph.Broker.Exchange
import Hyperglyph.Broker.ClientLimit

/-! Who is served. A connection whose peer does not have the broker's user is closed in the step
that accepted it, and nothing is ever read from it or sent to it. -/
namespace Hyperglyph

open Monitor

namespace Standing

variable {c : ConnId} {s : Standing} {events : List Event}

/-- After its close a connection has no events. -/
theorem off_of_gone (h : reads (move c) gone events = some s) : ∀ e ∈ events, e.on c = false := by
  induction events with
  | nil => simp
  | cons e events ih =>
      obtain ⟨u, he, hrest⟩ := reads_cons_eq_some.mp h
      have hoff : e.on c = false := by
        by_contra hon
        simp [move, Bool.not_eq_false _ ▸ hon, follow] at he
      rw [move_of_off hoff, Option.some_inj] at he
      rw [List.forall_mem_cons]
      exact ⟨hoff, ih (he ▸ hrest)⟩

/-- Before it is accepted a connection has no events. -/
theorem off_of_unaccepted (h : reads (move c) unknown events = some s)
    (hnew : Event.accepted c ∉ events) : ∀ e ∈ events, e.on c = false := by
  intro e he
  obtain ⟨before, after, rfl⟩ := List.append_of_mem he
  obtain ⟨u, hbefore, hrest⟩ := reads_append_eq_some.mp h
  obtain ⟨v, hmove, -⟩ := reads_cons_eq_some.mp hrest
  obtain rfl : u = unknown := (standing_iff hbefore).1.mpr (mt (List.mem_append_left _) hnew)
  by_contra hon
  simp only [move, Bool.not_eq_false _ ▸ hon, if_true] at hmove
  cases e with
  | accepted c' =>
      obtain rfl : c' = c := by simpa [Event.on] using hon
      exact hnew (by simp)
  | received | sent | unsent | closed | badClose => cases hmove

end Standing

namespace Broker

variable {b b₀ b' : Broker} {inputs : List Input} {a : AcceptAnswers} {n : Nat} {c : ConnId}
  {maxClients listenerFd : Nat}

/-- The call of `accept4` that returns `n` for the connection `c`. -/
structure AcceptsConn (b : Broker) (a : AcceptAnswers) (n : Nat) (c : ConnId) : Prop where
  readable : ∃ events, b.pc = .accept events ∧ events.pollin = true
  unlimited : b.limitReached = false
  answer : a.accepted = some (n, c)
  free : b.kernel.fds.Free n
  fresh : Event.accepted c ∉ b.kernel.log

/-- The peer is a process of the broker's own user. -/
def OwnUser (a : AcceptAnswers) : Prop :=
  ∃ credentials, a.credentials = some credentials ∧ credentials.sizeMatches = true ∧
    0 < credentials.pid ∧ credentials.uid = a.effectiveUid

theorem peerAccepted_iff : peerAccepted a = true ↔ OwnUser a := by
  unfold peerAccepted OwnUser
  cases a.credentials <;> simp [and_assoc]

/-- In this run `c` was accepted and its peer has the broker's user. -/
def Vetted (b₀ : Broker) (inputs : List Input) (c : ConnId) : Prop :=
  ∃ before a after b n, inputs = before ++ .accept a :: after ∧ Execution.Run Step b₀ before b ∧
    b.AcceptsConn a n c ∧ OwnUser a

theorem Vetted.extend (h : Vetted b₀ inputs c) (more : List Input) :
    Vetted b₀ (inputs ++ more) c := by
  obtain ⟨before, a, after, b, n, rfl, hrest⟩ := h
  exact ⟨before, a, after ++ more, b, n, by simp, hrest⟩

/-- What the end of a round does to the kernel. -/
theorem accept_kernel (b : Broker) (a : AcceptAnswers) :
    (b.step (.accept a)).kernel = b.kernel ∨
      ∃ n c, b.AcceptsConn a n c ∧
        ((b.step (.accept a)).kernel = (b.kernel.withConn n c).close n ∨
          OwnUser a ∧ (b.step (.accept a)).kernel = b.kernel.withConn n c) := by
  simp only [step]
  split
  · next events hpc =>
      unfold acceptClient
      split
      · left
        split <;> rfl
      · next hguard =>
          simp only [Bool.or_eq_true, not_or, Bool.not_eq_true, Bool.not_eq_true',
            Bool.not_eq_false] at hguard
          rcases b.kernel.accept4_cases a.accepted with hfail | ⟨n, c, ha, hn, hc⟩
          · left
            rw [hfail]
            simp only [Int.reduceNeg, Int.reduceLT, if_true]
            split <;> rfl
          · refine .inr ⟨n, c, ⟨⟨events, hpc, hguard.2⟩, hguard.1, ha, hn, hc⟩, ?_⟩
            rw [ha, Kernel.accept4_of_fresh hn hc]
            dsimp only
            rw [if_neg (Int.not_lt.mpr (Int.natCast_nonneg n))]
            split
            · exact .inl rfl
            · next hcredentials =>
                split
                · exact .inr ⟨peerAccepted_iff.mp (by simpa using hcredentials), rfl⟩
                · exact .inl rfl
  · exact .inl rfl

/-- No peer is new, and those who were heard were peers. -/
structure KeepsPeers (b b' : Broker) : Prop where
  conns : ∀ fd c, b'.kernel.fds.get fd = some (.conn c) → b.kernel.fds.get fd = some (.conn c)
  heard : ∀ c d, Event.received c d ∈ b'.kernel.log →
    Event.received c d ∈ b.kernel.log ∨ ∃ fd, b.kernel.fds.get fd = some (.conn c)

theorem Shrinks.keepsPeers (h : b.Shrinks b') : b.KeepsPeers b' where
  conns := fun fd c => h.fds fd (.conn c)
  heard := by
    intro c d hmem
    obtain ⟨events, hlog, -, hsilent⟩ := h.silent
    rw [hlog] at hmem
    exact .inl ((List.mem_append.mp hmem).resolve_right (hsilent c d))

theorem KeepsPeers.shrink {b'' : Broker} (h : b.KeepsPeers b') (h' : b'.Shrinks b'') :
    b.KeepsPeers b'' where
  conns := fun fd c hc => h.conns fd c (h'.keepsPeers.conns fd c hc)
  heard := by
    intro c d hmem
    rcases h'.keepsPeers.heard c d hmem with hold | ⟨fd, hc⟩
    · exact h.heard c d hold
    · exact .inr ⟨fd, h.conns fd c hc⟩

theorem Inv.serveClient_keepsPeers (h : b.Inv) {index : Nat} {client : ClientConnection}
    (hindex : b.clients[index]? = some client) (a : Answers) :
    b.KeepsPeers (b.serveClient index client a).1 := by
  obtain ⟨c, hc, hmsg⟩ := h.served hindex a
  constructor
  · intro fd c' hc'
    rcases hmsg.opens_memfds hc' with hold | ⟨-, n, hn⟩
    · exact hold
    · cases hn
  · intro c' d hmem
    obtain ⟨events, hlog, hown, -⟩ := hmsg.speaks
    have hmem' : Event.received c' d ∈ b.kernel.log ++ events := hlog ▸ hmem
    rcases List.mem_append.mp hmem' with hold | hnew
    · exact .inl hold
    · exact .inr ⟨client.fd, hown c' d hnew ▸ hc⟩

/-- Only `accept4` brings a new peer. -/
theorem Inv.step_keepsPeers (h : b.Inv) (i : Input) :
    b.KeepsPeers (b.step i) ∨ ∃ a, i = .accept a := by
  rcases step_shrinks b i with hshrinks | ⟨a, index, fds, rfl, hpc⟩ | ⟨a, events, rfl, -⟩
  · exact .inl hshrinks.keepsPeers
  · left
    have hturn : b.KeepsPeers
        (b.dispatchClient index ((fds[index + 1]?).elim .clear (·.revents)) a) →
        b.KeepsPeers (b.step (.dispatch a)) := by
      intro hkeeps
      simp only [step, hpc]
      exact hkeeps.shrink (Shrinks.of_kernel rfl)
    apply hturn
    rcases dispatchClient_cases b index ((fds[index + 1]?).elim .clear (·.revents)) a with
      hsame | hclose | ⟨client, hindex, -, ⟨-, hserve⟩ | hserve⟩
    · rw [hsame]
      exact (Shrinks.of_kernel rfl).keepsPeers
    · rw [hclose]
      exact (closeClient_shrinks b index).keepsPeers
    · rw [hserve]
      exact h.serveClient_keepsPeers hindex a
    · rw [hserve]
      exact (h.serveClient_keepsPeers hindex a).shrink (closeClient_shrinks _ index)
  · exact .inr ⟨a, rfl⟩

/-- A connection turned away leaves the descriptors as they were. -/
theorem keepsPeers_turnedAway (hn : b.kernel.fds.Free n)
    (hkernel : b'.kernel = (b.kernel.withConn n c).close n) : b.KeepsPeers b' := by
  have hopen : (b.kernel.withConn n c).fds.get n = some (.conn c) :=
    DescriptorTable.get_install_self n _
  rw [Kernel.close_of_open hopen] at hkernel
  constructor
  · intro fd c' hc'
    rw [hkernel] at hc'
    have hsame : (b.kernel.withConn n c).fds.remove n = b.kernel.fds :=
      DescriptorTable.remove_install hn _
    exact hsame ▸ hc'
  · intro c' d hmem
    rw [hkernel] at hmem
    left
    simpa [Kernel.withConn] using hmem

/-- Peers, and whoever was heard, were vetted. -/
structure VettedPeers (b₀ : Broker) (inputs : List Input) (b : Broker) : Prop where
  conns : ∀ fd c, b.kernel.fds.get fd = some (.conn c) → Vetted b₀ inputs c
  heard : ∀ c d, Event.received c d ∈ b.kernel.log → Vetted b₀ inputs c

theorem VettedPeers.keep (h : VettedPeers b₀ inputs b) (hkeeps : b.KeepsPeers b') (more : List Input) :
    VettedPeers b₀ (inputs ++ more) b' where
  conns := fun fd c hc => (h.conns fd c (hkeeps.conns fd c hc)).extend more
  heard := by
    intro c d hmem
    rcases hkeeps.heard c d hmem with hold | ⟨fd, hc⟩
    · exact (h.heard c d hold).extend more
    · exact (h.conns fd c hc).extend more

theorem run_vetted (h : Execution.Run Step (start maxClients listenerFd) inputs b) :
    VettedPeers (start maxClients listenerFd) inputs b := by
  induction h with
  | start =>
      constructor
      · intro fd c hc
        simp only [start, DescriptorTable.get_install, DescriptorTable.get_empty] at hc
        split at hc <;> cases hc
      · intro c d hmem
        cases hmem
  | @next inputs b i b' hrun hlast ih =>
      cases hlast
      have hreach := (reachable_start maxClients listenerFd).run_reachable hrun
      rcases hreach.inv.step_keepsPeers i with hkeeps | ⟨a, rfl⟩
      · exact ih.keep hkeeps [i]
      · rcases accept_kernel b a with hsame | ⟨n, c, haccepts, haway | ⟨hcredentials, hadmitted⟩⟩
        · exact ih.keep (Shrinks.of_kernel hsame).keepsPeers _
        · exact ih.keep (keepsPeers_turnedAway haccepts.free haway) _
        · have hnew : Vetted (start maxClients listenerFd) (inputs ++ [.accept a]) c :=
            ⟨inputs, a, [], b, n, rfl, hrun, haccepts, hcredentials⟩
          constructor
          · intro fd c' hc'
            rw [hadmitted] at hc'
            simp only [Kernel.withConn, DescriptorTable.get_install] at hc'
            split at hc'
            · cases hc'
              exact hnew
            · exact (ih.conns fd c' hc').extend _
          · intro c' d hmem
            rw [hadmitted] at hmem
            refine (ih.heard c' d ?_).extend _
            simpa [Kernel.withConn] using hmem

/-- The rest of a run, after a state it goes through. -/
theorem run_suffix {before after : List Input} (h : Execution.Run Step b₀ (before ++ after) b)
    (hbefore : Execution.Run Step b₀ before b') : Execution.Run Step b' after b := by
  rw [eq_foldl_of_run h, List.foldl_append, eq_foldl_of_run hbefore]
  exact run_foldl after _

/-- The peer of `c` does not have the broker's user. -/
theorem AcceptsConn.kernel (h : b.AcceptsConn a n c) (hother : ¬ OwnUser a) :
    (b.step (.accept a)).kernel = (b.kernel.withConn n c).close n := by
  obtain ⟨events, hpc, hpollin⟩ := h.readable
  have hrejected : peerAccepted a = false := Bool.eq_false_iff.mpr (hother ∘ peerAccepted_iff.mp)
  simp [step, hpc, acceptClient, h.unlimited, hpollin, h.answer,
    Kernel.accept4_of_fresh h.free h.fresh, hrejected, Int.not_lt.mpr (Int.natCast_nonneg n)]

theorem turned_away {after : List Input} (hreach : Reachable b) (h : b.AcceptsConn a n c)
    (hother : ¬ OwnUser a)
    (hrun : Execution.Run Step b (.accept a :: after) b') :
    b'.kernel.log.filter (·.on c) = [.accepted c, .closed (.conn c)] := by
  have hopen : (b.kernel.withConn n c).fds.get n = some (.conn c) :=
    DescriptorTable.get_install_self n _
  have hstep : (b.step (.accept a)).kernel.log =
      b.kernel.log ++ [.accepted c, .closed (.conn c)] := by
    rw [h.kernel hother, Kernel.close_of_open hopen]
    simp [Kernel.withConn]
  have hrest : Execution.Run Step (b.step (.accept a)) after b' :=
    run_suffix (List.singleton_append ▸ hrun) (.single rfl)
  obtain ⟨labels, hledger⟩ := (hreach.step_reachable (.accept a)).run_refines hrest
  have hlog : b'.kernel.log = b.kernel.log ++ ([.accepted c, .closed (.conn c)] ++ labels.flatten) := by
    rw [← List.append_assoc, ← hstep]
    exact hledger.log_eq
  obtain ⟨s, hs, -⟩ := (hreach.run_reachable hrun).refines.follows c
  change reads (Standing.move c) .unknown b'.kernel.log = some s at hs
  rw [hlog, reads_append_eq_some] at hs
  obtain ⟨u, hbefore, hs⟩ := hs
  obtain rfl : u = .unknown := (Standing.standing_iff hbefore).1.mpr h.fresh
  have hgone : reads (Standing.move c) .unknown [.accepted c, .closed (.conn c)] = some .gone := by
    simp [reads_cons, Standing.move, Standing.follow]
  rw [reads_append, hgone, Option.bind_some] at hs
  have hquiet : ∀ {events : List Event}, (∀ e ∈ events, e.on c = false) →
      events.filter (·.on c) = [] := by
    intro events hoff
    rw [List.filter_eq_nil_iff]
    intro e he
    simp [hoff e he]
  rw [hlog, List.filter_append, List.filter_append,
    hquiet (Standing.off_of_unaccepted hbefore h.fresh), hquiet (Standing.off_of_gone hs)]
  simp [Event.on]

/-- Whom one broker serves. -/
structure Authenticated (b₀ : Broker) (inputs : List Input) (b : Broker) : Prop where
  heard : ∀ c d, Event.received c d ∈ b.kernel.log → Vetted b₀ inputs c
  answered : ∀ c m attached, Event.sent c m attached ∈ b.kernel.log ∨
    Event.unsent c m attached ∈ b.kernel.log → Vetted b₀ inputs c
  peers : ∀ client ∈ b.clients, ∀ c, b.kernel.fds.get client.fd = some (.conn c) →
    Vetted b₀ inputs c
  /-- A connection of another user is closed on the spot, and that is all of it. -/
  turnedAway : ∀ before a after t n c, inputs = before ++ .accept a :: after →
    Execution.Run Step b₀ before t → t.AcceptsConn a n c → ¬ OwnUser a →
    b.kernel.log.filter (·.on c) = [.accepted c, .closed (.conn c)]

theorem peers_authenticated (h : Execution.Run Step (start maxClients listenerFd) inputs b) :
    Authenticated (start maxClients listenerFd) inputs b where
  heard := (run_vetted h).heard
  answered := by
    have hreach := (reachable_start maxClients listenerFd).run_reachable h
    have hasked : ∀ {c m attached} (sent : Bool), replyEvent c m attached sent ∈ b.kernel.log →
        Vetted (start maxClients listenerFd) inputs c := by
      intro c m attached sent hmem
      obtain ⟨before, after, hlog⟩ := List.append_of_mem hmem
      obtain ⟨earlier, d, -, quiet, rfl, -⟩ := hreach.asked hlog
      exact (run_vetted h).heard c d (by simp [hlog])
    rintro c m attached (hsent | hunsent)
    · exact hasked true hsent
    · exact hasked false hunsent
  peers := fun client _ => (run_vetted h).conns client.fd
  turnedAway := by
    rintro before a after t n c rfl hrun haccepts hother
    have ht := (reachable_start maxClients listenerFd).run_reachable hrun
    exact turned_away ht haccepts hother (run_suffix h hrun)

/-- Two connections, the second one from another user. -/
def strangerInputs : List Input :=
  [.head true (.ready [readable]), .dispatch (answering []), .accept (accepting 4 0),
    .head true (.ready [readable]), .dispatch (answering []), .dispatch (answering []),
    .accept { accepting 5 1 with credentials := some ⟨true, 2, 1001⟩ },
    .head true (.ready [.clear, readable]), .dispatch (answering pageRequest.encode)]

theorem peers_authenticated_stranger :
    (strangerInputs.foldl step (start 0 3)).kernel.log = [.accepted 0, .accepted 1,
        .closed (.conn 1), .received 0 pageRequest.encode, .sent 0
          { brokerMessageInit .create with mappingSize := 4096 } [.memfd 0, .memfd 1]] ∧
      Authenticated (start 0 3) strangerInputs (strangerInputs.foldl step (start 0 3)) :=
  ⟨by decide +kernel, peers_authenticated (run_foldl strangerInputs (start 0 3))⟩

end Broker

end Hyperglyph
