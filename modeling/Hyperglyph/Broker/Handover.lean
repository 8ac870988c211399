import Hyperglyph.Broker.Descriptors

/-! The numbers the broker holds, from step to step: each open one is held once, keeps its object
while it is held, and is open whenever it is handed to a system call. -/
namespace Hyperglyph

namespace Kernel

/-- Descriptors were closed, and nothing else happened. -/
structure Closes (k k' : Kernel) : Prop where
  fds : ∀ fd o, k'.fds.get fd = some o → k.fds.get fd = some o
  log : ∃ events, k'.log = k.log ++ events ∧
    ∀ e ∈ events, (∃ o, e = .closed o) ∨ ∃ fd, e = .badClose fd

theorem Closes.refl (k : Kernel) : k.Closes k where
  fds := fun _ _ => id
  log := ⟨[], (List.append_nil _).symm, by simp⟩

theorem Closes.trans {k k' k'' : Kernel} (h : k.Closes k') (h' : k'.Closes k'') : k.Closes k'' := by
  obtain ⟨first, hlog, hfirst⟩ := h.log
  obtain ⟨second, hlog', hsecond⟩ := h'.log
  refine ⟨fun fd o hfd => h.fds fd o (h'.fds fd o hfd), first ++ second, ?_, ?_⟩
  · rw [hlog', hlog, List.append_assoc]
  · intro e he
    exact (List.mem_append.mp he).elim (hfirst e) (hsecond e)

theorem closes_close (k : Kernel) (fd : Fd) : k.Closes (k.close fd) := by
  constructor
  · intro fd' o hfd
    rw [close_fds] at hfd
    exact (DescriptorTable.get_of_get_remove hfd).2
  · unfold close
    split
    · next o _ =>
        refine ⟨[.closed o], rfl, ?_⟩
        intro e he
        exact .inl ⟨o, List.mem_singleton.mp he⟩
    · refine ⟨[.badClose fd], rfl, ?_⟩
      intro e he
      exact .inr ⟨fd, List.mem_singleton.mp he⟩

theorem closes_reset (k : Kernel) (g : Generation) : k.Closes (generationReset k g).1 := by
  unfold generationReset
  dsimp only
  split
  · split
    · exact (closes_close _ _).trans (closes_close _ _)
    · exact closes_close _ _
  · split
    · exact closes_close _ _
    · exact .refl k

end Kernel

namespace Broker

variable {b b' b'' : Broker}

/-! ### Steps open first and close afterwards -/

/-- Nothing was opened. -/
abbrev Shrinks (b b' : Broker) : Prop := b.kernel.Closes b'.kernel

/-- No number was given to another object. -/
def Settles (b b' : Broker) : Prop :=
  ∀ fd o o', b.kernel.fds.get fd = some o → b'.kernel.fds.get fd = some o' → o' = o

theorem Shrinks.of_kernel (h : b'.kernel = b.kernel) : b.Shrinks b' := by
  unfold Shrinks
  rw [h]
  exact .refl _

theorem Shrinks.trans (h : b.Shrinks b') (h' : b'.Shrinks b'') : b.Shrinks b'' :=
  Kernel.Closes.trans h h'

theorem Settles.shrink (h : b.Settles b') (h' : b'.Shrinks b'') : b.Settles b'' :=
  fun fd o o' hfd hfd' => h fd o o' hfd (h'.fds fd o' hfd')

theorem Shrinks.settles (h : b.Shrinks b') : b.Settles b' := by
  intro fd o o' hfd hfd'
  have hsame := h.fds fd o' hfd'
  rw [hfd] at hsame
  exact (Option.some.inj hsame).symm

theorem closeClient_shrinks (b : Broker) (index : Nat) : b.Shrinks (b.closeClient index) := by
  cases hindex : b.clients[index]? with
  | none =>
      rw [closeClient_of_none hindex]
      exact Shrinks.of_kernel rfl
  | some client =>
      simp only [Shrinks, closeClient, brokerCloseClient, hindex]
      split
      · exact (Kernel.closes_reset _ _).trans (Kernel.closes_close _ _)
      · exact Kernel.closes_close _ _

theorem closeListener_shrinks (b : Broker) : b.Shrinks b.closeListener := by
  unfold closeListener
  split
  · exact Kernel.closes_close _ _
  · exact Shrinks.of_kernel rfl

theorem evict_shrinks (n : Nat) (b : Broker) : b.Shrinks (b.evict n) := by
  induction n generalizing b with
  | zero => exact Shrinks.of_kernel rfl
  | succ index ih =>
      unfold evict
      split
      · split
        · exact ih b
        · exact (closeClient_shrinks b index).trans (ih _)
      · exact ih b

theorem closeAll_shrinks (n : Nat) (b : Broker) : b.Shrinks (b.closeAll n) := by
  induction n generalizing b with
  | zero => exact Shrinks.of_kernel rfl
  | succ index ih => exact (closeClient_shrinks b index).trans (ih _)

theorem growAndPoll_kernel (b : Broker) (reallocated : Bool) (poll : PollAnswer) :
    (b.growAndPoll reallocated poll).kernel = b.kernel := by
  unfold growAndPoll
  split
  · rfl
  · dsimp only
    split
    · rfl
    · cases poll <;> rfl

/-- The tables as `poll` finds them. -/
def beforePoll (b : Broker) : Broker :=
  if b.limitReached then b.closeListener.evict b.closeListener.clients.length else b

/-- The loop is left without a failure. -/
def EndsItself (b : Broker) : Prop :=
  b.stopping = true ∨ b.limitReached = true ∧ b.beforePoll.clients = []

theorem loopHead_eq (b : Broker) (reallocated : Bool) (poll : PollAnswer) :
    b.loopHead reallocated poll =
      if b.stopping then { b with pc := .leaving }
      else if b.limitReached = true ∧ b.beforePoll.clients = [] then
        { b.beforePoll with pc := .leaving }
      else b.beforePoll.growAndPoll reallocated poll := by
  unfold loopHead beforePoll
  cases b.limitReached with
  | true => simp only [if_true, true_and]
  | false => simp only [Bool.false_eq_true, if_false, false_and]

theorem loopHead_kernel (b : Broker) (reallocated : Bool) (poll : PollAnswer) :
    (b.loopHead reallocated poll).kernel = if b.stopping then b.kernel else b.beforePoll.kernel := by
  unfold loopHead beforePoll
  split
  · rfl
  · split
    · dsimp only
      split
      · rfl
      · exact growAndPoll_kernel _ _ _
    · exact growAndPoll_kernel _ _ _

theorem beforePoll_shrinks (b : Broker) : b.Shrinks b.beforePoll := by
  unfold beforePoll
  split
  · exact (closeListener_shrinks b).trans (evict_shrinks _ _)
  · exact Shrinks.of_kernel rfl

theorem leave_shrinks (b : Broker) : b.Shrinks b.leave := by
  have hreset : (b.closeAll b.clients.length).Shrinks { b.closeAll b.clients.length with
      kernel := (generationReset (b.closeAll b.clients.length).kernel
        (b.closeAll b.clients.length).generation).1
      generation := (generationReset (b.closeAll b.clients.length).kernel
        (b.closeAll b.clients.length).generation).2 } := Kernel.closes_reset _ _
  exact ((closeAll_shrinks _ b).trans hreset).trans
    ((closeListener_shrinks _).trans (Shrinks.of_kernel rfl))

theorem Inv.serveClient_settles (h : b.Inv) {index : Nat} {client : ClientConnection}
    (hindex : b.clients[index]? = some client) (a : Answers) :
    b.Settles (b.serveClient index client a).1 := by
  obtain ⟨c, -, hmsg⟩ := h.served hindex a
  intro fd o o' hfd hfd'
  rcases hmsg.opens_memfds hfd' with hsame | ⟨hnone, -⟩
  · rw [hfd] at hsame
    exact (Option.some.inj hsame).symm
  · rw [hfd] at hnone
    cases hnone

theorem Inv.dispatchClient_settles (h : b.Inv) (index : Nat) (events : Revents) (a : Answers) :
    b.Settles (b.dispatchClient index events a) := by
  unfold dispatchClient
  split
  · exact (Shrinks.of_kernel rfl).settles
  · next client hindex =>
      split
      · exact (Shrinks.of_kernel rfl).settles
      · have hexamined : b.Settles (b.examineClient index client events a).1 := by
          unfold examineClient
          split
          · exact (Shrinks.of_kernel rfl).settles
          · split
            · exact h.serveClient_settles hindex a
            · exact (Shrinks.of_kernel rfl).settles
        dsimp only
        split
        · exact hexamined
        · exact hexamined.shrink (closeClient_shrinks _ _)

theorem acceptClient_settles (b : Broker) (events : Revents) (a : AcceptAnswers) :
    b.Settles (b.acceptClient events a) := by
  unfold acceptClient
  split
  · split <;> exact (Shrinks.of_kernel rfl).settles
  · rcases b.kernel.accept4_cases a.accepted with hfail | ⟨n, c, ha, hn, hc⟩
    · rw [hfail]
      simp only [Int.reduceNeg, Int.reduceLT, if_true]
      split <;> exact (Shrinks.of_kernel rfl).settles
    · rw [ha, Kernel.accept4_of_fresh hn hc]
      dsimp only
      rw [if_neg (Int.not_lt.mpr (Int.natCast_nonneg n))]
      have hopened : ∀ fd o o', b.kernel.fds.get fd = some o →
          (b.kernel.withConn n c).fds.get fd = some o' → o' = o := by
        intro fd o o' hfd hfd'
        have hsame : (b.kernel.fds.install n (.conn c)).get fd = some o :=
          DescriptorTable.get_install_of_open hn hfd
        exact Option.some.inj (hfd'.symm.trans hsame)
      split
      · exact fun fd o o' hfd hfd' => hopened fd o o' hfd ((Kernel.closes_close _ _).fds _ _ hfd')
      · split
        · exact hopened
        · exact fun fd o o' hfd hfd' => hopened fd o o' hfd ((Kernel.closes_close _ _).fds _ _ hfd')

theorem loopHead_shrinks (b : Broker) (reallocated : Bool) (poll : PollAnswer) :
    b.Shrinks (b.loopHead reallocated poll) := by
  rw [Shrinks, loopHead_kernel]
  split
  · exact .refl _
  · exact beforePoll_shrinks b

/-- Only a client's turn and an `accept4` can open anything, and there is no `accept4` once
the limit is reached. -/
theorem step_shrinks (b : Broker) (i : Input) :
    b.Shrinks (b.step i) ∨
      (∃ a index fds, i = .dispatch a ∧ b.pc = .dispatch (index + 1) fds) ∨
      ∃ a events, i = .accept a ∧ b.pc = .accept events ∧ b.limitReached = false := by
  cases i with
  | signal => exact .inl (Shrinks.of_kernel rfl)
  | head reallocated poll =>
      simp only [step]
      split
      · exact .inl (loopHead_shrinks b reallocated poll)
      · exact .inl (Shrinks.of_kernel rfl)
  | dispatch a =>
      simp only [step]
      split
      · exact .inl (Shrinks.of_kernel rfl)
      · next index fds hpc => exact .inr (.inl ⟨a, index, fds, rfl, hpc⟩)
      · exact .inl (Shrinks.of_kernel rfl)
  | accept a =>
      simp only [step]
      split
      · next events hpc =>
          cases hlimit : b.limitReached with
          | false => exact .inr (.inr ⟨a, events, rfl, hpc, rfl⟩)
          | true =>
              left
              unfold acceptClient
              rw [hlimit, Bool.true_or, if_pos rfl]
              split <;> exact Shrinks.of_kernel rfl
      · exact .inl (Shrinks.of_kernel rfl)
  | leave =>
      simp only [step]
      split
      · exact .inl (leave_shrinks b)
      · exact .inl (Shrinks.of_kernel rfl)

/-- A number that is open before and after a step names the same object. -/
theorem Inv.step_settles (h : b.Inv) (i : Input) : b.Settles (b.step i) := by
  rcases step_shrinks b i with hshrinks | ⟨a, index, fds, rfl, hpc⟩ | ⟨a, events, rfl, hpc, -⟩
  · exact hshrinks.settles
  · simp only [step, hpc]
    exact h.dispatchClient_settles _ _ a
  · simp only [step, hpc]
    exact acceptClient_settles b events a

/-! ### The numbers the broker holds -/

/-- The descriptors in the variables of `main`. -/
def held (b : Broker) : List Fd :=
  b.clients.map (·.fd) ++
    ((if b.generation.state = .empty then [] else [b.generation.cacheFd, b.generation.lockFd]) ++
      if 0 ≤ b.listenerFd then [b.listenerFd] else [])

theorem Reachable.open_iff_held (h : Reachable b) (fd : Fd) :
    (∃ o, b.kernel.fds.get fd = some o) ↔ fd ∈ b.held := by
  have hinv := h.inv
  have howned := h.owned
  simp only [held, List.mem_append, List.mem_map]
  constructor
  · rintro ⟨o, hfd⟩
    cases o with
    | conn c => exact .inl (howned.conn_held fd c hfd)
    | listener =>
        have heq := howned.listener_held fd hfd
        subst heq
        refine .inr (.inr ?_)
        rw [if_pos (DescriptorTable.nonneg_of_get hfd)]
        exact List.mem_singleton_self _
    | memfd n =>
        refine .inr (.inl ?_)
        have hgeneration := h.tidied.memfd_held fd n hfd
        have hne : b.generation.state ≠ .empty := by
          intro hempty
          rw [hinv.generation.of_empty hempty] at hgeneration
          have hneg : fd = -1 := hgeneration.elim id id
          rw [hneg, DescriptorTable.get_neg (by decide)] at hfd
          cases hfd
        rw [if_neg hne]
        exact List.mem_pair.mpr hgeneration
  · rintro (⟨client, hmem, rfl⟩ | hgeneration | hlistener)
    · obtain ⟨c, hc⟩ := hinv.clients_open client hmem
      exact ⟨_, hc⟩
    · split at hgeneration
      · cases hgeneration
      · next hne =>
          obtain ⟨p, q, hpq⟩ := hinv.generation.held hne
          rcases List.mem_pair.mp hgeneration with rfl | rfl
          · exact ⟨_, hpq.cache⟩
          · exact ⟨_, hpq.lock⟩
    · split at hlistener
      · next hpos =>
          rw [List.mem_singleton.mp hlistener]
          exact ⟨_, hinv.listener.resolve_left (fun heq => by rw [heq] at hpos; cases hpos)⟩
      · cases hlistener

/-- No number is in two variables. -/
theorem Reachable.held_once (h : Reachable b) : b.held.Nodup := by
  have hinv := h.inv
  have hlistener : ∀ {o}, o ≠ Object.listener → b.kernel.fds.get b.listenerFd = some o → False := by
    intro o ho hfd
    rcases hinv.listener with heq | hl
    · rw [heq, DescriptorTable.get_neg (by decide)] at hfd
      cases hfd
    · exact ho (Option.some.inj (hfd.symm.trans hl))
  unfold held
  rw [List.nodup_append, List.nodup_append]
  refine ⟨hinv.clients_distinct, ⟨?_, ?_, ?_⟩, ?_⟩
  · split
    · exact List.nodup_nil
    · next hne =>
        obtain ⟨p, q, hpq⟩ := hinv.generation.held hne
        simpa using hpq.fd_ne
  · split
    · exact List.nodup_singleton _
    · exact List.nodup_nil
  · intro fd hfd fd' hfd' heq
    subst heq
    split at hfd
    · cases hfd
    · next hne =>
        obtain ⟨p, q, hpq⟩ := hinv.generation.held hne
        split at hfd'
        · rw [List.mem_singleton.mp hfd'] at hfd
          rcases List.mem_pair.mp hfd with heq | heq
          · exact hlistener (by simp) (heq ▸ hpq.cache)
          · exact hlistener (by simp) (heq ▸ hpq.lock)
        · cases hfd'
  · intro fd hfd fd' hfd' heq
    subst heq
    obtain ⟨client, hmem, rfl⟩ := List.mem_map.mp hfd
    obtain ⟨c, hc⟩ := hinv.clients_open client hmem
    rcases List.mem_append.mp hfd' with hgeneration | hl
    · split at hgeneration
      · cases hgeneration
      · next hne =>
          obtain ⟨p, q, hpq⟩ := hinv.generation.held hne
          obtain ⟨hcache, hlock⟩ := hinv.held_ne_client hpq hmem
          rcases List.mem_pair.mp hgeneration with heq | heq
          · exact hcache heq
          · exact hlock heq
    · split at hl
      · rw [List.mem_singleton.mp hl] at hc
        exact hlistener (by simp) hc
      · cases hl

/-- While the broker holds a number, the number names the object it was obtained for. -/
theorem Reachable.held_kept {fd : Fd} {inputs : List Input} (h : Reachable b)
    (hrun : Execution.Run (Execution.Guarded Step fun b _ => fd ∈ b.held) b inputs b')
    (hfd : fd ∈ b'.held) : b'.kernel.fds.get fd = b.kernel.fds.get fd := by
  induction hrun with
  | start => rfl
  | @next inputs b' i b'' hrun hlast ih =>
      obtain ⟨hheld, rfl⟩ := hlast
      have hb' := h.run_reachable hrun.unguarded
      obtain ⟨o, ho⟩ := (hb'.open_iff_held fd).mpr hheld
      obtain ⟨o', ho'⟩ := ((hb'.step_reachable i).open_iff_held fd).mpr hfd
      rw [ho', hb'.inv.step_settles i fd o o' ho ho', ← ho]
      exact ih hheld

/-! ### The numbers the broker hands to system calls -/

/-- The step hands this number to `poll`, `accept4`, `getsockopt`, `recv` or `sendmsg`, with
the kernel as it is then. The last call of a handler is its `sendmsg`. -/
inductive Hands (b : Broker) : Input → Kernel → Fd → Prop
  | poll {fd : Fd} (reallocated : Bool) (poll : PollAnswer) : b.pc = .top → 0 ≤ fd →
      fd ∈ b.beforePoll.listenerFd :: b.beforePoll.clients.map (·.fd) →
      Hands b (.head reallocated poll) b.beforePoll.kernel fd
  | recv {client : ClientConnection} {index : Nat} {fds : List PollFd} (a : Answers) :
      b.pc = .dispatch (index + 1) fds → b.clients[index]? = some client →
      Hands b (.dispatch a) b.kernel client.fd
  | send {client : ClientConnection} {index : Nat} {fds : List PollFd} (a : Answers) :
      b.pc = .dispatch (index + 1) fds → b.clients[index]? = some client →
      Hands b (.dispatch a) (b.serveClient index client a).1.kernel client.fd
  | attach {client : ClientConnection} {index : Nat} {fds : List PollFd} {fd : Fd} (a : Answers) :
      b.pc = .dispatch (index + 1) fds → b.clients[index]? = some client →
      (b.serveClient index client a).1.generation.state ≠ .empty →
      fd ∈ [(b.serveClient index client a).1.generation.cacheFd,
        (b.serveClient index client a).1.generation.lockFd] →
      Hands b (.dispatch a) (b.serveClient index client a).1.kernel fd
  | accept {events : Revents} (a : AcceptAnswers) : b.pc = .accept events →
      b.limitReached = false → events.pollin = true → Hands b (.accept a) b.kernel b.listenerFd
  | getsockopt {events : Revents} {n : Nat} {c : ConnId} (a : AcceptAnswers) :
      b.pc = .accept events → a.accepted = some (n, c) → b.kernel.fds.Free n →
      Event.accepted c ∉ b.kernel.log → Hands b (.accept a) (b.kernel.withConn n c) n

/-- The listener is polled only while it is open. -/
def ListenerPolled (b : Broker) : Prop :=
  match b.pc with
  | .dispatch _ fds => ((fds[0]?).elim Revents.clear (·.revents)).pollin = true → 0 ≤ b.listenerFd
  | .accept events => events.pollin = true → 0 ≤ b.listenerFd
  | _ => True

theorem dispatchClient_listenerFd (b : Broker) (index : Nat) (events : Revents) (a : Answers) :
    (b.dispatchClient index events a).listenerFd = b.listenerFd := by
  unfold dispatchClient examineClient
  split
  · rfl
  · dsimp only
    split_ifs <;> rfl

theorem growAndPoll_listenerPolled (b : Broker) (reallocated : Bool) (poll : PollAnswer) :
    (b.growAndPoll reallocated poll).ListenerPolled := by
  unfold growAndPoll
  split
  · trivial
  · dsimp only
    split
    · trivial
    · cases poll with
      | interrupted => trivial
      | error => trivial
      | ready revents =>
          show (((b.pollFds revents)[0]?).elim Revents.clear (·.revents)).pollin = true →
            0 ≤ b.listenerFd
          simp only [pollFds, List.mapIdx_cons, List.getElem?_cons_zero, Option.elim_some]
          split
          · intro hpollin
            cases hpollin
          · next hneg => exact fun _ => Int.not_lt.mp hneg

theorem listenerPolled_of_leaving (h : b.pc = .leaving ∨ b.pc = .top ∨ b.pc = .returned) :
    b.ListenerPolled := by
  unfold ListenerPolled
  rcases h with h | h | h <;> rw [h] <;> trivial

theorem acceptClient_pc (b : Broker) (events : Revents) (a : AcceptAnswers) :
    (b.acceptClient events a).pc = .leaving ∨ (b.acceptClient events a).pc = .top := by
  unfold acceptClient
  split
  · split
    · exact .inl rfl
    · exact .inr rfl
  · dsimp only
    split
    · split
      · exact .inr rfl
      · exact .inl rfl
    · split
      · exact .inr rfl
      · split
        · exact .inr rfl
        · exact .inl rfl

theorem ListenerPolled.step (h : b.ListenerPolled) (i : Input) : (b.step i).ListenerPolled := by
  cases i with
  | signal => exact h
  | head reallocated poll =>
      simp only [Broker.step]
      split
      · unfold loopHead
        split
        · trivial
        · split
          · dsimp only
            split
            · trivial
            · exact growAndPoll_listenerPolled _ _ _
          · exact growAndPoll_listenerPolled _ _ _
      · exact h
  | dispatch a =>
      simp only [Broker.step]
      split
      · next fds hpc =>
          rw [ListenerPolled, hpc] at h
          exact h
      · next index fds hpc =>
          rw [ListenerPolled, hpc] at h
          show _ → 0 ≤ (b.dispatchClient index _ a).listenerFd
          rw [dispatchClient_listenerFd]
          exact h
      · exact h
  | accept a =>
      simp only [Broker.step]
      split
      · rcases acceptClient_pc b _ a with hpc | hpc
        · exact listenerPolled_of_leaving (.inl hpc)
        · exact listenerPolled_of_leaving (.inr (.inl hpc))
      · exact h
  | leave =>
      simp only [Broker.step]
      split
      · exact listenerPolled_of_leaving (.inr (.inr rfl))
      · exact h

theorem Reachable.listenerPolled (h : Reachable b) : b.ListenerPolled := by
  refine Execution.Reachable.invariant (I := ListenerPolled) ?_ ?_ h
  · rintro b ⟨maxClients, listenerFd, rfl⟩
    trivial
  · rintro b i b' hb rfl
    exact hb.step i

theorem Inv.beforePoll (h : b.Inv) : b.beforePoll.Inv := by
  have hupkeeps : Upkeeps b b.beforePoll := by
    unfold Broker.beforePoll
    split
    · exact (Relation.ReflTransGen.single (.closeListener b)).trans (upkeeps_evict _ _)
    · exact .refl
  exact moves_preserve Inv.move hupkeeps.moves h

theorem Inv.listener_open (h : b.Inv) (hpos : 0 ≤ b.listenerFd) :
    b.kernel.fds.get b.listenerFd = some .listener :=
  h.listener.resolve_left (fun heq => by rw [heq] at hpos; cases hpos)

/-- Every number is open when it is handed to a system call. -/
theorem Reachable.hands_open (h : Reachable b) {i : Input} {k : Kernel} {fd : Fd}
    (hhands : b.Hands i k fd) : ∃ o, k.fds.get fd = some o := by
  have hinv := h.inv
  cases hhands with
  | poll reallocated poll hpc hpos hmem =>
      rcases List.mem_cons.mp hmem with rfl | hclient
      · exact ⟨_, hinv.beforePoll.listener_open hpos⟩
      · obtain ⟨client, hclients, rfl⟩ := List.mem_map.mp hclient
        obtain ⟨c, hc⟩ := hinv.beforePoll.clients_open client hclients
        exact ⟨_, hc⟩
  | recv a hpc hindex =>
      obtain ⟨c, hc⟩ := hinv.clients_open _ (List.mem_of_getElem? hindex)
      exact ⟨_, hc⟩
  | send a hpc hindex =>
      obtain ⟨c, hc, hmsg⟩ := hinv.served hindex a
      exact ⟨_, hmsg.keeps_open hc (by simp)⟩
  | attach a hpc hindex hne hmem =>
      obtain ⟨p, q, hpq⟩ := (hinv.serveClient hindex a).generation.held hne
      rcases List.mem_pair.mp hmem with rfl | rfl
      · exact ⟨_, hpq.cache⟩
      · exact ⟨_, hpq.lock⟩
  | accept a hpc hlimit hpollin =>
      have hlistener := h.listenerPolled
      rw [ListenerPolled, hpc] at hlistener
      exact ⟨_, hinv.listener_open (hlistener hpollin)⟩
  | getsockopt a hpc ha hn hc => exact ⟨_, DescriptorTable.get_install_self _ _⟩

/-! ### The end of the run -/

theorem leave_settled (b : Broker) : b.leave.clients = [] ∧ b.leave.generation = generationInit ∧
    b.leave.listenerFd < 0 := by
  have hreset : (generationReset (b.closeAll b.clients.length).kernel
      (b.closeAll b.clients.length).generation).2 = generationInit := rfl
  unfold leave closeListener
  dsimp only
  split
  · exact ⟨closeAll_clients _ b rfl, rfl, Int.negSucc_lt_zero 0⟩
  · next hneg => exact ⟨closeAll_clients _ b rfl, rfl, Int.not_le.mp hneg⟩

theorem growAndPoll_not_returned (b : Broker) (reallocated : Bool) (poll : PollAnswer) :
    (b.growAndPoll reallocated poll).pc ≠ .returned := by
  unfold growAndPoll
  split
  · exact Pc.noConfusion
  · dsimp only
    split
    · exact Pc.noConfusion
    · cases poll <;> exact Pc.noConfusion

theorem loopHead_not_returned (b : Broker) (reallocated : Bool) (poll : PollAnswer) :
    (b.loopHead reallocated poll).pc ≠ .returned := by
  unfold loopHead
  split
  · exact Pc.noConfusion
  · split
    · dsimp only
      split
      · exact Pc.noConfusion
      · exact growAndPoll_not_returned _ _ _
    · exact growAndPoll_not_returned _ _ _

/-- The broker returns with the code after its loop, and after that nothing happens. -/
theorem step_returned {i : Input} (h : (b.step i).pc = .returned) :
    (b.pc = .returned ∧ ∃ stopping, b.step i = { b with stopping }) ∨ b.step i = b.leave := by
  cases i with
  | signal => exact .inl ⟨h, true, rfl⟩
  | head reallocated poll =>
      simp only [step] at h ⊢
      split at h
      · exact absurd h (loopHead_not_returned b reallocated poll)
      · exact .inl ⟨h, b.stopping, rfl⟩
  | dispatch a =>
      simp only [step] at h ⊢
      split at h
      · cases h
      · cases h
      · exact .inl ⟨h, b.stopping, rfl⟩
  | accept a =>
      simp only [step] at h ⊢
      split at h
      · rcases acceptClient_pc b _ a with hpc | hpc <;> rw [h] at hpc <;> cases hpc
      · exact .inl ⟨h, b.stopping, rfl⟩
  | leave =>
      simp only [step] at h ⊢
      split at h
      · exact .inr rfl
      · exact .inl ⟨h, b.stopping, rfl⟩

/-- The broker that has returned holds nothing. -/
theorem Reachable.returned_held (h : Reachable b) (hreturned : b.pc = .returned) : b.held = [] := by
  have hnone : b.pc = .returned →
      b.clients = [] ∧ b.generation = generationInit ∧ b.listenerFd < 0 := by
    refine Execution.Reachable.invariant (I := fun b : Broker => b.pc = .returned →
      b.clients = [] ∧ b.generation = generationInit ∧ b.listenerFd < 0) ?_ ?_ h
    · rintro b ⟨maxClients, listenerFd, rfl⟩ hpc
      cases hpc
    · rintro b i b' hb rfl hpc
      rcases step_returned hpc with ⟨hbefore, stopping, heq⟩ | heq
      · rw [heq]
        exact hb hbefore
      · rw [heq]
        exact leave_settled b
  obtain ⟨hclients, hgeneration, hlistener⟩ := hnone hreturned
  simp [held, hclients, hgeneration, generationInit, Int.not_le.mpr hlistener]

end Broker

end Hyperglyph
