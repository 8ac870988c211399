import Hyperglyph.Broker.Handover
import Hyperglyph.Broker.Permanence

/-! How the broker ends. After a signal it returns within one round, and its exit status tells
whether it ended by itself or was ended by a failure. -/
namespace Hyperglyph

namespace Broker

variable {b b' b₀ : Broker} {inputs : List Input} {i : Input} {maxClients listenerFd : Nat}

/-- The call the broker is at. -/
def awaits (b : Broker) (i : Input) : Bool :=
  match b.pc, i with
  | .top, .head _ _ | .dispatch _ _, .dispatch _ | .accept _, .accept _ | .leaving, .leave => true
  | _, _ => false

/-- How many more steps the broker takes once it is to stop. -/
def remaining (b : Broker) : Nat :=
  match b.pc with
  | .top => 2
  | .dispatch clientIndex _ => clientIndex + 4
  | .accept _ => 3
  | .leaving => 1
  | .returned => 0

/-- The steps of the broker among the inputs; the others find it elsewhere. -/
def ownSteps : Broker → List Input → Nat
  | _, [] => 0
  | b, i :: inputs => (b.awaits i).toNat + (b.step i).ownSteps inputs

/-- Neither the flag of the signal handler nor the exit status was touched. -/
structure SameFlags (b b' : Broker) : Prop where
  stopping : b'.stopping = b.stopping
  exitFailure : b'.exitFailure = b.exitFailure

theorem SameFlags.trans {b'' : Broker} (h : b.SameFlags b') (h' : b'.SameFlags b'') :
    b.SameFlags b'' :=
  ⟨h'.stopping.trans h.stopping, h'.exitFailure.trans h.exitFailure⟩

theorem closeListener_sameFlags (b : Broker) : b.SameFlags b.closeListener := by
  unfold closeListener
  split <;> exact ⟨rfl, rfl⟩

theorem closeClient_sameFlags (b : Broker) (index : Nat) : b.SameFlags (b.closeClient index) :=
  ⟨rfl, rfl⟩

theorem evict_sameFlags (n : Nat) (b : Broker) : b.SameFlags (b.evict n) := by
  induction n generalizing b with
  | zero => exact ⟨rfl, rfl⟩
  | succ index ih =>
      unfold evict
      split
      · split
        · exact ih b
        · exact (closeClient_sameFlags b index).trans (ih _)
      · exact ih b

theorem closeAll_sameFlags (n : Nat) (b : Broker) : b.SameFlags (b.closeAll n) := by
  induction n generalizing b with
  | zero => exact ⟨rfl, rfl⟩
  | succ index ih => exact (closeClient_sameFlags b index).trans (ih _)

theorem beforePoll_sameFlags (b : Broker) : b.SameFlags b.beforePoll := by
  unfold beforePoll
  split
  · exact (closeListener_sameFlags b).trans (evict_sameFlags _ _)
  · exact ⟨rfl, rfl⟩

theorem dispatchClient_sameFlags (b : Broker) (index : Nat) (events : Revents) (a : Answers) :
    b.SameFlags (b.dispatchClient index events a) := by
  rcases dispatchClient_cases b index events a with
    hsame | hclose | ⟨client, -, -, ⟨-, hserve⟩ | hserve⟩
  · rw [hsame]
    exact ⟨rfl, rfl⟩
  · rw [hclose]
    exact ⟨rfl, rfl⟩
  · rw [hserve]
    exact ⟨rfl, rfl⟩
  · rw [hserve]
    exact ⟨rfl, rfl⟩

theorem leave_sameFlags (b : Broker) : b.SameFlags b.leave := by
  have hall := closeAll_sameFlags b.clients.length b
  have hclosed := closeListener_sameFlags { b.closeAll b.clients.length with
    kernel := (generationReset (b.closeAll b.clients.length).kernel
      (b.closeAll b.clients.length).generation).1
    generation := (generationReset (b.closeAll b.clients.length).kernel
      (b.closeAll b.clients.length).generation).2 }
  exact hall.trans ⟨hclosed.stopping, hclosed.exitFailure⟩

/-- The two ways on from a point in the loop: back to it, or out with a failure. -/
def GoesOn (b b' : Broker) : Prop :=
  b'.stopping = b.stopping ∧
    ((b'.pc ≠ .leaving ∧ b'.pc ≠ .returned) ∧ b'.exitFailure = b.exitFailure ∨
      b'.pc = .leaving ∧ b'.exitFailure = true)

theorem growAndPoll_goesOn (b : Broker) (reallocated : Bool) (poll : PollAnswer) :
    b.GoesOn (b.growAndPoll reallocated poll) := by
  unfold growAndPoll
  split
  · exact ⟨rfl, .inr ⟨rfl, rfl⟩⟩
  · dsimp only
    split
    · exact ⟨rfl, .inr ⟨rfl, rfl⟩⟩
    · cases poll with
      | interrupted => exact ⟨rfl, .inl ⟨⟨Pc.noConfusion, Pc.noConfusion⟩, rfl⟩⟩
      | error => exact ⟨rfl, .inr ⟨rfl, rfl⟩⟩
      | ready => exact ⟨rfl, .inl ⟨⟨Pc.noConfusion, Pc.noConfusion⟩, rfl⟩⟩

theorem acceptClient_goesOn (b : Broker) (events : Revents) (a : AcceptAnswers) :
    b.GoesOn (b.acceptClient events a) := by
  have htop : ∀ b' : Broker, b'.stopping = b.stopping → b'.pc = .top →
      b'.exitFailure = b.exitFailure → b.GoesOn b' := by
    intro b' hstopping hpc hexit
    refine ⟨hstopping, .inl ⟨⟨?_, ?_⟩, hexit⟩⟩ <;> rw [hpc] <;> exact Pc.noConfusion
  unfold acceptClient
  split
  · split
    · exact ⟨rfl, .inr ⟨rfl, rfl⟩⟩
    · exact htop _ rfl rfl rfl
  · dsimp only
    split
    · split
      · exact htop _ rfl rfl rfl
      · exact ⟨rfl, .inr ⟨rfl, rfl⟩⟩
    · split
      · exact htop _ rfl rfl rfl
      · split
        · exact htop _ rfl rfl rfl
        · exact ⟨rfl, .inr ⟨rfl, rfl⟩⟩

/-- The head of the loop leaves it where the loop ends by itself, and only there without a
failure. -/
theorem loopHead_cases (b : Broker) (reallocated : Bool) (poll : PollAnswer) :
    b.EndsItself ∧ (b.loopHead reallocated poll).pc = .leaving ∧
        b.SameFlags (b.loopHead reallocated poll) ∨
      ¬ b.EndsItself ∧ b.GoesOn (b.loopHead reallocated poll) := by
  have hflags := beforePoll_sameFlags b
  rw [loopHead_eq]
  split
  · next hstopping => exact .inl ⟨.inl hstopping, rfl, rfl, rfl⟩
  · next hstopping =>
      split
      · next hnone => exact .inl ⟨.inr hnone, rfl, hflags.stopping, hflags.exitFailure⟩
      · next hmore =>
          refine .inr ⟨?_, ?_⟩
          · rintro (hstop | hnone)
            · exact hstopping hstop
            · exact hmore hnone
          · obtain ⟨hsame, hgoes⟩ := growAndPoll_goesOn b.beforePoll reallocated poll
            rw [hflags.exitFailure] at hgoes
            exact ⟨hsame.trans hflags.stopping, hgoes⟩

theorem step_of_not_awaits (h : b.awaits i = false) (hsignal : i ≠ .signal) : b.step i = b := by
  cases i with
  | signal => exact absurd rfl hsignal
  | head | dispatch | accept | leave => cases hpc : b.pc <;> simp_all [awaits, step]

/-- Once it is set, the flag stays set. -/
theorem step_stopping (h : b.stopping = true) (i : Input) : (b.step i).stopping = true := by
  cases i with
  | signal => rfl
  | head reallocated poll =>
      simp only [step]
      split
      · rcases loopHead_cases b reallocated poll with ⟨-, -, hflags⟩ | ⟨-, hsame, -⟩
        · exact hflags.stopping.trans h
        · exact hsame.trans h
      · exact h
  | dispatch a =>
      simp only [step]
      split
      · exact h
      · exact (dispatchClient_sameFlags b _ _ a).stopping.trans h
      · exact h
  | accept a =>
      simp only [step]
      split
      · exact (acceptClient_goesOn b _ a).1.trans h
      · exact h
  | leave =>
      simp only [step]
      split
      · exact (leave_sameFlags b).stopping.trans h
      · exact h

/-- Every step of a broker that is to stop brings it closer to its return. -/
theorem remaining_step (h : b.stopping = true) (i : Input) :
    (b.awaits i).toNat + (b.step i).remaining ≤ b.remaining := by
  cases i with
  | signal => simp [awaits, step, remaining]
  | head reallocated poll =>
      cases hpc : b.pc <;> simp [awaits, step, remaining, hpc, loopHead, h]
  | dispatch a =>
      cases hpc : b.pc with
      | dispatch clientIndex pollFds =>
          cases clientIndex with
          | zero => simp [awaits, step, remaining, hpc]
          | succ index =>
              simp only [awaits, step, remaining, hpc]
              simp
              omega
      | top | accept | leaving | returned => simp [awaits, step, remaining, hpc]
  | accept a =>
      cases hpc : b.pc with
      | accept events =>
          have hpc' := acceptClient_pc b events a
          simp only [awaits, step, remaining, hpc]
          rcases hpc' with hpc' | hpc' <;> rw [hpc'] <;> simp
      | top | dispatch | leaving | returned => simp [awaits, step, remaining, hpc]
  | leave => cases hpc : b.pc <;> simp [awaits, step, remaining, hpc, leave]

theorem remaining_run (h : b.stopping = true) (inputs : List Input) :
    b.ownSteps inputs + (inputs.foldl step b).remaining ≤ b.remaining := by
  induction inputs generalizing b with
  | nil => simp [ownSteps]
  | cons i inputs ih =>
      have hone := remaining_step h i
      have hrest := ih (step_stopping h i)
      rw [ownSteps, List.foldl_cons]
      omega

theorem remaining_eq_zero : b.remaining = 0 ↔ b.pc = .returned := by
  unfold remaining
  cases b.pc <;> simp

/-! ### One round -/

/-- A round goes through no more clients than there are. -/
def RoundWithin (b : Broker) : Prop :=
  match b.pc with
  | .dispatch clientIndex _ => clientIndex ≤ b.clients.length
  | _ => True

theorem growAndPoll_within (b : Broker) (reallocated : Bool) (poll : PollAnswer) :
    (b.growAndPoll reallocated poll).RoundWithin := by
  unfold growAndPoll
  split
  · trivial
  · dsimp only
    split
    · trivial
    · cases poll with
      | interrupted | error => trivial
      | ready revents => exact le_refl b.clients.length

theorem length_dispatchClient (b : Broker) (index : Nat) (events : Revents) (a : Answers) :
    b.clients.length ≤ (b.dispatchClient index events a).clients.length + 1 := by
  have hclose : ∀ b : Broker, b.clients.length ≤ (b.closeClient index).clients.length + 1 := by
    intro b
    by_cases hindex : index < b.clients.length
    · exact (length_closeClient hindex).ge
    · rw [closeClient_of_none (List.getElem?_eq_none (Nat.le_of_not_lt hindex))]
      omega
  have hserve : ∀ client, (b.serveClient index client a).1.clients.length = b.clients.length :=
    fun _ => List.length_set
  rcases dispatchClient_cases b index events a with
    hsame | hclosed | ⟨client, -, -, ⟨-, hserved⟩ | hserved⟩
  · rw [hsame]
    omega
  · rw [hclosed]
    exact hclose b
  · rw [hserved, hserve]
    omega
  · rw [hserved, ← hserve client]
    exact hclose _

theorem RoundWithin.step (h : b.RoundWithin) (i : Input) : (b.step i).RoundWithin := by
  cases i with
  | signal => exact h
  | head reallocated poll =>
      simp only [Broker.step]
      split
      · rw [loopHead_eq]
        split
        · trivial
        · split
          · trivial
          · exact growAndPoll_within _ _ _
      · exact h
  | dispatch a =>
      simp only [Broker.step]
      split
      · trivial
      · next index pollFds hpc =>
          rw [RoundWithin, hpc] at h
          have hlength := length_dispatchClient b index
            ((pollFds[index + 1]?).elim .clear (·.revents)) a
          show index ≤ (b.dispatchClient index _ a).clients.length
          omega
      · exact h
  | accept a =>
      simp only [Broker.step]
      split
      · next events _ =>
          unfold RoundWithin
          rcases acceptClient_pc b events a with hpc | hpc <;> rw [hpc] <;> trivial
      · exact h
  | leave =>
      simp only [Broker.step]
      split
      · trivial
      · exact h

theorem Reachable.remaining_le (h : Reachable b) : b.remaining ≤ b.clients.length + 4 := by
  have hround : b.RoundWithin := by
    refine Execution.Reachable.invariant (I := RoundWithin) ?_ ?_ h
    · rintro b ⟨maxClients, listenerFd, rfl⟩
      trivial
    · rintro b i b' hb rfl
      exact hb.step i
  unfold RoundWithin at hround
  unfold remaining
  cases hpc : b.pc with
  | dispatch clientIndex pollFds =>
      rw [hpc] at hround
      exact Nat.add_le_add_right hround 4
  | top | accept | leaving | returned =>
      dsimp only
      omega

/-! ### The exit status -/

/-- Somewhere in the run the loop ended by itself. -/
def EndedItself (b₀ : Broker) (inputs : List Input) : Prop :=
  ∃ before reallocated poll after t, inputs = before ++ .head reallocated poll :: after ∧
    Execution.Run Step b₀ before t ∧ t.pc = .top ∧ t.EndsItself

theorem endedItself_nil : ¬ EndedItself b₀ [] := by
  rintro ⟨before, reallocated, poll, after, t, hnil, -⟩
  simp at hnil

theorem endedItself_append (hrun : Execution.Run Step b₀ inputs b) :
    EndedItself b₀ (inputs ++ [i]) ↔
      EndedItself b₀ inputs ∨ (∃ reallocated poll, i = .head reallocated poll) ∧ b.pc = .top ∧
        b.EndsItself := by
  constructor
  · rintro ⟨before, reallocated, poll, after, t, hinputs, ht, htop, hends⟩
    rcases List.eq_nil_or_concat after with rfl | ⟨rest, last, rfl⟩
    · obtain ⟨rfl, rfl⟩ := List.append_inj' hinputs rfl |>.imp_right List.singleton_inj.mp
      obtain rfl := (eq_foldl_of_run ht).trans (eq_foldl_of_run hrun).symm
      exact .inr ⟨⟨reallocated, poll, rfl⟩, htop, hends⟩
    · left
      rw [List.concat_eq_append, ← List.cons_append, ← List.append_assoc] at hinputs
      obtain ⟨hfront, -⟩ := List.append_inj' hinputs rfl
      exact ⟨before, reallocated, poll, rest, t, hfront, ht, htop, hends⟩
  · rintro (⟨before, reallocated, poll, after, t, rfl, hrest⟩ |
      ⟨⟨reallocated, poll, rfl⟩, htop, hends⟩)
    · exact ⟨before, reallocated, poll, after ++ [i], t, by simp, hrest⟩
    · exact ⟨inputs, reallocated, poll, [], b, rfl, hrun, htop, hends⟩

/-- The status while the loop runs, and after it. -/
structure Status (b₀ : Broker) (inputs : List Input) (b : Broker) : Prop where
  running : b.pc ≠ .leaving → b.pc ≠ .returned →
    b.exitFailure = false ∧ ¬ EndedItself b₀ inputs
  ended : b.pc = .leaving ∨ b.pc = .returned →
    (b.exitFailure = false ↔ EndedItself b₀ inputs)

theorem Status.of_same (h : Status b₀ inputs b) {inputs' : List Input}
    (hended : EndedItself b₀ inputs' ↔ EndedItself b₀ inputs)
    (hplace : (b'.pc = .leaving ∨ b'.pc = .returned) ↔ (b.pc = .leaving ∨ b.pc = .returned))
    (hexit : b'.exitFailure = b.exitFailure) : Status b₀ inputs' b' where
  running := by
    intro hleaving hreturned
    have hneither : ¬ (b.pc = .leaving ∨ b.pc = .returned) := by
      rw [← hplace]
      rintro (h | h)
      · exact hleaving h
      · exact hreturned h
    rw [hexit, hended]
    exact h.running (fun h => hneither (.inl h)) (fun h => hneither (.inr h))
  ended := by
    intro hpc
    rw [hexit, hended]
    exact h.ended (hplace.mp hpc)

theorem Status.goesOn (h : Status b₀ inputs b) {inputs' : List Input}
    (hended : EndedItself b₀ inputs' ↔ EndedItself b₀ inputs)
    (hpc : b.pc ≠ .leaving ∧ b.pc ≠ .returned) (hgoes : b.GoesOn b') : Status b₀ inputs' b' := by
  obtain ⟨hexit, hnone⟩ := h.running hpc.1 hpc.2
  obtain ⟨-, ⟨⟨hleaving, hreturned⟩, hsame⟩ | ⟨hout, hfailed⟩⟩ := hgoes
  · exact h.of_same hended (by simp [hpc.1, hpc.2, hleaving, hreturned]) hsame
  · constructor
    · intro hleaving
      exact absurd hout hleaving
    · intro _
      rw [hfailed, hended]
      simp [hnone]

theorem Status.step (h : Status b₀ inputs b) (hrun : Execution.Run Step b₀ inputs b) (i : Input) :
    Status b₀ (inputs ++ [i]) (b.step i) := by
  have happend := endedItself_append (i := i) hrun
  by_cases hawaits : b.awaits i = true
  · have hother : (∀ reallocated poll, i ≠ .head reallocated poll) →
        (EndedItself b₀ (inputs ++ [i]) ↔ EndedItself b₀ inputs) := by
      intro hne
      rw [happend, or_iff_left]
      rintro ⟨⟨reallocated, poll, rfl⟩, -⟩
      exact hne reallocated poll rfl
    cases i with
    | signal => simp [awaits] at hawaits
    | head reallocated poll =>
        have htop : b.pc = .top := by
          cases hpc : b.pc <;> simp_all [awaits]
        have hstep : b.step (.head reallocated poll) = b.loopHead reallocated poll := by
          simp only [Broker.step, htop]
        rw [hstep]
        rcases loopHead_cases b reallocated poll with ⟨hends, hleaving, hflags⟩ | ⟨hends, hgoes⟩
        · constructor
          · exact fun hpc => absurd hleaving hpc
          · intro _
            have hexit := (h.running (by simp [htop]) (by simp [htop])).1
            rw [hflags.exitFailure, hexit]
            exact iff_of_true rfl (happend.mpr (.inr ⟨⟨reallocated, poll, rfl⟩, htop, hends⟩))
        · refine h.goesOn ?_ (by simp [htop]) hgoes
          rw [happend, or_iff_left]
          exact fun hnew => hends hnew.2.2
    | dispatch a =>
        have hsame := hother (by simp)
        cases hpc : b.pc with
        | dispatch clientIndex pollFds =>
            cases clientIndex with
            | zero => exact h.of_same hsame (by simp [Broker.step, hpc]) (by simp [Broker.step, hpc])
            | succ index =>
                have hflags := dispatchClient_sameFlags b index
                  ((pollFds[index + 1]?).elim .clear (·.revents)) a
                refine h.of_same hsame (by simp [Broker.step, hpc]) ?_
                simp only [Broker.step, hpc]
                exact hflags.exitFailure
        | top | accept | leaving | returned => simp [awaits, hpc] at hawaits
    | accept a =>
        have hsame := hother (by simp)
        cases hpc : b.pc with
        | accept events =>
            refine h.goesOn hsame (by simp [hpc]) ?_
            simp only [Broker.step, hpc]
            exact acceptClient_goesOn b events a
        | top | dispatch | leaving | returned => simp [awaits, hpc] at hawaits
    | leave =>
        have hsame := hother (by simp)
        cases hpc : b.pc with
        | leaving =>
            have hstep : b.step .leave = b.leave := by
              simp only [Broker.step, hpc]
            rw [hstep]
            refine h.of_same hsame ?_ (leave_sameFlags b).exitFailure
            simp [hpc, leave]
        | top | dispatch | accept | returned => simp [awaits, hpc] at hawaits
  · have hidle := Bool.eq_false_of_not_eq_true hawaits
    have hsame : EndedItself b₀ (inputs ++ [i]) ↔ EndedItself b₀ inputs := by
      rw [happend, or_iff_left]
      rintro ⟨⟨reallocated, poll, rfl⟩, htop, -⟩
      simp [awaits, htop] at hidle
    by_cases hsignal : i = .signal
    · subst hsignal
      exact h.of_same hsame Iff.rfl rfl
    · rw [step_of_not_awaits hidle hsignal]
      exact h.of_same hsame Iff.rfl rfl

theorem run_status (h : Execution.Run Step (start maxClients listenerFd) inputs b) :
    Status (start maxClients listenerFd) inputs b := by
  induction h with
  | start =>
      constructor
      · exact fun _ _ => ⟨rfl, endedItself_nil⟩
      · rintro (hpc | hpc) <;> cases hpc
  | @next inputs b i b' hrun hlast ih =>
      cases hlast
      exact ih.step hrun i

/-- How a run that has come to `b` ends. -/
structure EndsInOrder (b₀ : Broker) (inputs : List Input) (b : Broker) : Prop where
  /-- Once the flag is set, at most one step for each client and four more are left. -/
  prompt : b.stopping = true → b.remaining ≤ b.clients.length + 4 ∧
    ∀ more, b.remaining ≤ b.ownSteps more → (more.foldl step b).pc = .returned
  released : b.pc = .returned → ∀ fd, b.kernel.fds.get fd = none
  /-- The exit status is a success exactly where the loop ended by itself. -/
  status : b.pc = .returned → (b.exitFailure = false ↔ EndedItself b₀ inputs)

theorem ends_in_order (h : Execution.Run Step (start maxClients listenerFd) inputs b) :
    EndsInOrder (start maxClients listenerFd) inputs b where
  prompt := by
    intro hstopping
    have hreach := (reachable_start maxClients listenerFd).run_reachable h
    refine ⟨hreach.remaining_le, ?_⟩
    intro more hown
    have hbound := remaining_run hstopping more
    exact remaining_eq_zero.mp (by omega)
  released := by
    intro hreturned fd
    have hreach := (reachable_start maxClients listenerFd).run_reachable h
    by_contra hopen
    obtain ⟨o, ho⟩ := Option.ne_none_iff_exists'.mp hopen
    have hheld := (hreach.open_iff_held fd).mp ⟨o, ho⟩
    rw [hreach.returned_held hreturned] at hheld
    cases hheld
  status := fun hreturned => (run_status h).ended (.inr hreturned)

/-- A client is connected when the signal arrives. -/
def signalledInputs : List Input :=
  [.head true (.ready [readable]), .dispatch (answering []),
    .accept (accepting 4 0),
    .head true (.ready [.clear, readable]), .signal]

def stoppedInputs : List Input :=
  signalledInputs ++ [.dispatch (answering pageRequest.encode), .dispatch (answering []),
    .accept acceptNone,
    .head true .interrupted, .leave]

theorem ends_in_order_signalled :
    (signalledInputs.foldl step (start 0 3)).remaining = 5 ∧
      (stoppedInputs.foldl step (start 0 3)).pc = .returned ∧
      (stoppedInputs.foldl step (start 0 3)).exitFailure = false ∧
      EndsInOrder (start 0 3) signalledInputs (signalledInputs.foldl step (start 0 3)) ∧
      EndsInOrder (start 0 3) stoppedInputs (stoppedInputs.foldl step (start 0 3)) :=
  ⟨by decide +kernel, by decide +kernel, by decide +kernel, ends_in_order (run_foldl _ _),
    ends_in_order (run_foldl _ _)⟩

end Broker

end Hyperglyph
