import Mathlib.Logic.Relation
import Hyperglyph.Broker.MainLoop

/-! Each step of the main loop is a sequence of a few kinds of move on the broker's tables.
An invariant of the tables has to be checked for the moves only. -/
namespace Hyperglyph

namespace Broker

/-- The moves that handle no message. -/
inductive Upkeep : Broker → Broker → Prop
  /-- Loop variables only. -/
  | control {b b' : Broker} : b'.kernel = b.kernel → b'.clients = b.clients →
      b'.generation = b.generation → b'.listenerFd = b.listenerFd → Upkeep b b'
  | close {b : Broker} {index : Nat} : index < b.clients.length → Upkeep b (b.closeClient index)
  | closeListener (b : Broker) : Upkeep b b.closeListener
  | accept {b : Broker} {n : Nat} {c : ConnId} :
      b.kernel.fds.Free n → Event.accepted c ∉ b.kernel.log →
      Upkeep b { b with
        kernel := b.kernel.withConn n c
        clients := b.clients ++ [{ fd := n, handledMessage := false }] }
  | refuse {b : Broker} {n : Nat} {c : ConnId} :
      b.kernel.fds.Free n → Event.accepted c ∉ b.kernel.log →
      Upkeep b { b with kernel := (b.kernel.withConn n c).close n }
  | reset {b : Broker} : b.clients = [] →
      Upkeep b { b with
        kernel := (generationReset b.kernel b.generation).1
        generation := (generationReset b.kernel b.generation).2 }

inductive Move : Broker → Broker → Prop
  | upkeep {b b' : Broker} : Upkeep b b' → Move b b'
  | serve {b : Broker} {index : Nat} {client : ClientConnection} (a : Answers) :
      b.clients[index]? = some client → (b.serveClient index client a).2 = true →
      Move b (b.serveClient index client a).1
  | serveClose {b : Broker} {index : Nat} {client : ClientConnection} (a : Answers) :
      b.clients[index]? = some client →
      Move b ((b.serveClient index client a).1.closeClient index)

abbrev Upkeeps : Broker → Broker → Prop := Relation.ReflTransGen Upkeep
abbrev Moves : Broker → Broker → Prop := Relation.ReflTransGen Move

theorem Upkeeps.control {b b' b'' : Broker} (h : Upkeeps b b') (hk : b''.kernel = b'.kernel)
    (hc : b''.clients = b'.clients) (hg : b''.generation = b'.generation)
    (hl : b''.listenerFd = b'.listenerFd) : Upkeeps b b'' :=
  h.tail (.control hk hc hg hl)

theorem Upkeeps.moves {b b' : Broker} (h : Upkeeps b b') : Moves b b' := by
  induction h with
  | refl => exact .refl
  | tail _ last ih => exact ih.tail (.upkeep last)

theorem closeClient_of_none {b : Broker} {index : Nat} (h : b.clients[index]? = none) :
    b.closeClient index = b := by
  simp only [closeClient, brokerCloseClient, h]

theorem upkeeps_close (b : Broker) (index : Nat) : Upkeeps b (b.closeClient index) := by
  by_cases h : index < b.clients.length
  · exact .single (.close h)
  · rw [closeClient_of_none (List.getElem?_eq_none (Nat.le_of_not_lt h))]

theorem upkeeps_evict (n : Nat) (b : Broker) : Upkeeps b (b.evict n) := by
  induction n generalizing b with
  | zero => exact .refl
  | succ index ih =>
      unfold evict
      split
      · split
        · exact ih b
        · exact (upkeeps_close b index).trans (ih _)
      · exact ih b

theorem upkeeps_closeAll (n : Nat) (b : Broker) : Upkeeps b (b.closeAll n) := by
  induction n generalizing b with
  | zero => exact .refl
  | succ index ih => exact (upkeeps_close b index).trans (ih _)

theorem upkeeps_growAndPoll (b : Broker) (reallocated : Bool) (poll : PollAnswer) :
    Upkeeps b (b.growAndPoll reallocated poll) := by
  unfold growAndPoll
  split
  · exact Upkeeps.control .refl rfl rfl rfl rfl
  · dsimp only
    split
    · exact Upkeeps.control .refl rfl rfl rfl rfl
    · cases poll <;> exact Upkeeps.control .refl rfl rfl rfl rfl

theorem upkeeps_loopHead (b : Broker) (reallocated : Bool) (poll : PollAnswer) :
    Upkeeps b (b.loopHead reallocated poll) := by
  unfold loopHead
  split
  · exact Upkeeps.control .refl rfl rfl rfl rfl
  · split
    · have hevict : Upkeeps b (b.closeListener.evict b.closeListener.clients.length) :=
        (Relation.ReflTransGen.single (.closeListener b)).trans (upkeeps_evict _ _)
      dsimp only
      split
      · exact hevict.control rfl rfl rfl rfl
      · exact hevict.trans (upkeeps_growAndPoll _ _ _)
    · exact upkeeps_growAndPoll _ _ _

/-- Neither the limit nor the count of those who have spoken was touched. -/
structure SameCount (b b' : Broker) : Prop where
  handledClients : b'.handledClients = b.handledClients
  maxClients : b'.maxClients = b.maxClients

theorem SameCount.trans {b b' b'' : Broker} (h : b.SameCount b') (h' : b'.SameCount b'') :
    b.SameCount b'' :=
  ⟨h'.handledClients.trans h.handledClients, h'.maxClients.trans h.maxClients⟩

/-- What the loop's treatment of one client comes to. Once the limit is reached, only those
who have spoken are served. -/
theorem dispatchClient_cases (b : Broker) (index : Nat) (events : Revents) (a : Answers) :
    b.dispatchClient index events a = b ∨ b.dispatchClient index events a = b.closeClient index ∨
      ∃ client, b.clients[index]? = some client ∧
        (b.limitReached && !client.handledMessage) = false ∧
        ((b.serveClient index client a).2 = true ∧
            b.dispatchClient index events a = (b.serveClient index client a).1 ∨
          b.dispatchClient index events a = (b.serveClient index client a).1.closeClient index) := by
  unfold dispatchClient
  split
  · exact .inl rfl
  · next client hclient =>
      split
      · exact .inl rfl
      · dsimp only [examineClient]
        split_ifs with hlimit hkeep hkeep hkeep
        · exact absurd hkeep (by simp)
        · exact .inr (.inl rfl)
        · exact .inr (.inr ⟨client, hclient, Bool.not_eq_true _ ▸ hlimit,
            .inl ⟨(Bool.and_eq_true_iff.mp hkeep).1, rfl⟩⟩)
        · exact .inr (.inr ⟨client, hclient, Bool.not_eq_true _ ▸ hlimit, .inr rfl⟩)
        · exact .inl rfl
        · exact .inr (.inl rfl)

theorem brokerAddClient_clients {clients clients' : List ClientConnection} {capacity capacity' : Nat}
    {fd : Fd} {reallocated : Bool}
    (h : brokerAddClient clients capacity fd reallocated = some (clients', capacity')) :
    clients' = clients ++ [{ fd, handledMessage := false }] := by
  unfold brokerAddClient at h
  grind

theorem upkeeps_acceptClient (b : Broker) (events : Revents) (a : AcceptAnswers) :
    Upkeeps b (b.acceptClient events a) := by
  unfold acceptClient
  split
  · split <;> exact Upkeeps.control .refl rfl rfl rfl rfl
  · rcases b.kernel.accept4_cases a.accepted with hfail | ⟨n, c, ha, hn, hc⟩
    · rw [hfail]
      simp only [Int.reduceNeg, Int.reduceLT, if_true]
      split <;> exact Upkeeps.control .refl rfl rfl rfl rfl
    · rw [ha, Kernel.accept4_of_fresh hn hc]
      dsimp only
      rw [if_neg (Int.not_lt.mpr (Int.natCast_nonneg n))]
      have hrefuse : Upkeeps b { b with kernel := (b.kernel.withConn n c).close n } :=
        .single (.refuse hn hc)
      split
      · exact hrefuse.control rfl rfl rfl rfl
      · have haccept := Upkeep.accept (b := b) hn hc
        split
        · next clients' capacity hadd =>
            exact Upkeeps.control (.single haccept) rfl (brokerAddClient_clients hadd) rfl rfl
        · exact hrefuse.control rfl rfl rfl rfl

theorem length_closeClient {b : Broker} {index : Nat} (h : index < b.clients.length) :
    (b.closeClient index).clients.length + 1 = b.clients.length := by
  simp only [closeClient, brokerCloseClient, List.getElem?_eq_getElem h]
  exact SwapRemove.length_swapRemove h

/-- The exit path's loop runs until no client is left. -/
theorem closeAll_clients (n : Nat) (b : Broker) (h : b.clients.length = n) :
    (b.closeAll n).clients = [] := by
  induction n generalizing b with
  | zero => exact List.length_eq_zero_iff.mp h
  | succ index ih =>
      have hlen : (b.closeClient index).clients.length + 1 = b.clients.length :=
        length_closeClient (by omega)
      exact ih _ (by omega)

theorem upkeeps_leave (b : Broker) : Upkeeps b b.leave := by
  have hall := upkeeps_closeAll b.clients.length b
  have hreset := hall.tail (.reset (closeAll_clients _ b rfl))
  exact Upkeeps.control (hreset.tail (.closeListener _)) rfl rfl rfl rfl

theorem closeClient_sameCount (b : Broker) (index : Nat) : b.SameCount (b.closeClient index) :=
  ⟨rfl, rfl⟩

theorem evict_sameCount (n : Nat) (b : Broker) : b.SameCount (b.evict n) := by
  induction n generalizing b with
  | zero => exact ⟨rfl, rfl⟩
  | succ index ih =>
      unfold evict
      split
      · split
        · exact ih b
        · exact SameCount.trans (closeClient_sameCount b index) (ih _)
      · exact ih b

theorem closeListener_sameCount (b : Broker) : b.SameCount b.closeListener := by
  unfold closeListener
  split <;> exact ⟨rfl, rfl⟩

theorem closeAll_sameCount (n : Nat) (b : Broker) : b.SameCount (b.closeAll n) := by
  induction n generalizing b with
  | zero => exact ⟨rfl, rfl⟩
  | succ index ih => exact (closeClient_sameCount b index).trans (ih _)

theorem growAndPoll_sameCount (b : Broker) (reallocated : Bool) (poll : PollAnswer) :
    b.SameCount (b.growAndPoll reallocated poll) := by
  unfold growAndPoll
  split
  · exact ⟨rfl, rfl⟩
  · dsimp only
    split
    · exact ⟨rfl, rfl⟩
    · cases poll <;> exact ⟨rfl, rfl⟩

theorem loopHead_sameCount (b : Broker) (reallocated : Bool) (poll : PollAnswer) :
    b.SameCount (b.loopHead reallocated poll) := by
  have hevict : b.SameCount (b.closeListener.evict b.closeListener.clients.length) :=
    (closeListener_sameCount b).trans (evict_sameCount _ _)
  unfold loopHead
  split
  · exact ⟨rfl, rfl⟩
  · split
    · dsimp only
      split
      · exact ⟨hevict.handledClients, hevict.maxClients⟩
      · exact hevict.trans (growAndPoll_sameCount _ _ _)
    · exact growAndPoll_sameCount _ _ _

theorem acceptClient_sameCount (b : Broker) (events : Revents) (a : AcceptAnswers) :
    b.SameCount (b.acceptClient events a) := by
  unfold acceptClient
  dsimp only
  split
  · split <;> exact ⟨rfl, rfl⟩
  · split
    · split <;> exact ⟨rfl, rfl⟩
    · split
      · exact ⟨rfl, rfl⟩
      · split <;> exact ⟨rfl, rfl⟩

theorem leave_sameCount (b : Broker) : b.SameCount b.leave := by
  have hall := closeAll_sameCount b.clients.length b
  have hrest : (b.closeAll b.clients.length).SameCount b.leave := by
    have hreset := closeListener_sameCount { b.closeAll b.clients.length with
      kernel := (generationReset (b.closeAll b.clients.length).kernel
        (b.closeAll b.clients.length).generation).1
      generation := (generationReset (b.closeAll b.clients.length).kernel
        (b.closeAll b.clients.length).generation).2 }
    exact ⟨hreset.handledClients, hreset.maxClients⟩
  exact hall.trans hrest

/-- Every step is upkeep, or it handles one message: it serves one client and may close it. -/
theorem step_cases (b : Broker) (i : Input) :
    Upkeeps b (b.step i) ∧ b.SameCount (b.step i) ∨
      ∃ a b', i = .dispatch a ∧ Upkeep b' (b.step i) ∧ b'.kernel = (b.step i).kernel ∧
        b'.generation = (b.step i).generation ∧ b'.clients = (b.step i).clients ∧ SameCount b' (b.step i) ∧
        ∃ index client, b.clients[index]? = some client ∧
          (b.limitReached && !client.handledMessage) = false ∧
          ((b.serveClient index client a).2 = true ∧ b' = (b.serveClient index client a).1 ∨
            b' = (b.serveClient index client a).1.closeClient index) := by
  cases i with
  | signal => exact .inl ⟨Upkeeps.control .refl rfl rfl rfl rfl, rfl, rfl⟩
  | head reallocated poll =>
      refine .inl ?_
      simp only [step]
      split
      · exact ⟨upkeeps_loopHead b reallocated poll, loopHead_sameCount b reallocated poll⟩
      · exact ⟨.refl, rfl, rfl⟩
  | dispatch a =>
      simp only [step]
      split
      · exact .inl ⟨Upkeeps.control .refl rfl rfl rfl rfl, rfl, rfl⟩
      · next index pollFds _ =>
          rcases dispatchClient_cases b index ((pollFds[index + 1]?).elim .clear (·.revents)) a with
            hsame | hclose | ⟨client, hclient, hlimit, hserve⟩
          · rw [hsame]
            exact .inl ⟨Upkeeps.control .refl rfl rfl rfl rfl, rfl, rfl⟩
          · rw [hclose]
            exact .inl ⟨(upkeeps_close b index).control rfl rfl rfl rfl, rfl, rfl⟩
          · exact .inr ⟨a, b.dispatchClient index ((pollFds[index + 1]?).elim .clear (·.revents)) a, rfl,
              .control rfl rfl rfl rfl, rfl, rfl, rfl, ⟨rfl, rfl⟩, index, client, hclient, hlimit, hserve⟩
      · exact .inl ⟨.refl, rfl, rfl⟩
  | accept a =>
      refine .inl ?_
      simp only [step]
      split
      · exact ⟨upkeeps_acceptClient b _ a, acceptClient_sameCount b _ a⟩
      · exact ⟨.refl, rfl, rfl⟩
  | leave =>
      refine .inl ?_
      simp only [step]
      split
      · exact ⟨upkeeps_leave b, leave_sameCount b⟩
      · exact ⟨.refl, rfl, rfl⟩

/-- Every step is a sequence of moves. -/
theorem moves_step (b : Broker) (i : Input) : Moves b (b.step i) := by
  rcases step_cases b i with ⟨hupkeep, -⟩ |
    ⟨a, b', -, hlast, -, -, -, -, index, client, hclient, -, hserve⟩
  · exact hupkeep.moves
  · refine Relation.ReflTransGen.tail (.single ?_) (.upkeep hlast)
    rcases hserve with ⟨hkeep, rfl⟩ | rfl
    · exact .serve a hclient hkeep
    · exact .serveClose a hclient

/-- The invariant rule for tables. -/
theorem moves_preserve {I : Broker → Prop} (hmove : ∀ {b b'}, I b → Move b b' → I b')
    {b b' : Broker} (h : Moves b b') (hb : I b) : I b' := by
  induction h with
  | refl => exact hb
  | tail _ last ih => exact hmove ih last

theorem Reachable.moves_invariant {I : Broker → Prop}
    (hstart : ∀ maxClients listenerFd, I (start maxClients listenerFd))
    (hmove : ∀ {b b'}, I b → Move b b' → I b') {b : Broker} (h : Reachable b) : I b := by
  refine Execution.Reachable.invariant (I := I) ?_ ?_ h
  · rintro b ⟨maxClients, listenerFd, rfl⟩
    exact hstart maxClients listenerFd
  · rintro b i b' hb rfl
    exact moves_preserve hmove (moves_step b i) hb

end Broker

end Hyperglyph
