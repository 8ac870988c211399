import Hyperglyph.Broker.SingleCreator

/-! A ready generation stays what it is until the broker leaves. -/
namespace Hyperglyph

/-- No message changes a ready generation. -/
theorem HandleMessage.ready_kept {k : Kernel} {client : ClientConnection} {c : ConnId}
    {g : Generation} {a : Answers} {r : Kernel × ClientConnection × Generation × Bool}
    (h : HandleMessage k client c g a r) (hready : g.state = .ready) : r.2.2.1 = g := by
  cases h with
  | failed | dropped | plain | shared => rfl
  | created _ _ _ _ _ _ _ hg | notCreated _ _ _ _ _ _ hg =>
      rw [hg] at hready
      cases hready
  | published d m _ _ _ haccepted =>
      have hbuilding := (readyRefused_eq_false haccepted).1
      rw [hready] at hbuilding
      cases hbuilding
  | aborted _ _ _ _ _ _ _ hbuilding =>
      rw [hready] at hbuilding
      cases hbuilding

namespace Ledger

variable {l l' : Ledger} {events : List Event}

/-- A published phase ends only when everything ends. -/
theorem Step.published_kept (h : Step l events l') {p : Nat} {size base offset : UInt64}
    {key : KeyBuffer} (hphase : l.phase = .published p size base offset key) :
    l'.phase = l.phase ∨ l'.phase = .empty := by
  have hserved : ∀ {c served ph next keep}, Served l.phase l.next c served ph next keep →
      ph = l.phase ∨ ph = .empty := by
    intro c served ph next keep hserved
    rw [hphase] at hserved ⊢
    cases hserved with
    | unread | dropped | answered | shared => exact .inl rfl
    | created _ _ _ _ _ hph => cases hph
    | notCreated | aborted => exact .inr rfl
    | published _ _ _ _ haccepts => exact haccepts.elim
  cases h with
  | upkeep h => exact h.phase
  | served _ h => exact hserved h
  | @dismissed c events ph next keep _ h =>
      rcases hserved h with heq | hempty
      · left
        simp only [Phase.leave, heq, hphase, Phase.creator?]
        exact if_neg (by simp)
      · right
        simp only [Phase.leave, hempty]
        exact ite_self _

end Ledger

namespace Broker

variable {b : Broker}

theorem closeClient_ready (hready : b.generation.state = .ready) (index : Nat) :
    (b.closeClient index).generation = b.generation := by
  simp only [closeClient, brokerCloseClient]
  cases b.clients[index]? with
  | none => rfl
  | some client => simp [hready]

theorem evict_ready (hready : b.generation.state = .ready) (n : Nat) :
    (b.evict n).generation = b.generation := by
  induction n generalizing b with
  | zero => rfl
  | succ index ih =>
      have hclose := closeClient_ready hready index
      unfold evict
      split
      · split
        · exact ih hready
        · rw [ih (by rw [hclose]; exact hready), hclose]
      · exact ih hready

theorem growAndPoll_generation (b : Broker) (reallocated : Bool) (poll : PollAnswer) :
    (b.growAndPoll reallocated poll).generation = b.generation := by
  unfold growAndPoll
  split
  · rfl
  · dsimp only
    split
    · rfl
    · cases poll <;> rfl

theorem closeListener_generation (b : Broker) : b.closeListener.generation = b.generation := by
  unfold closeListener
  split <;> rfl

theorem loopHead_ready (hready : b.generation.state = .ready) (reallocated : Bool)
    (poll : PollAnswer) : (b.loopHead reallocated poll).generation = b.generation := by
  have hlistener := closeListener_generation b
  have hevict := evict_ready (b := b.closeListener) (by rw [hlistener]; exact hready)
    b.closeListener.clients.length
  unfold loopHead
  split
  · rfl
  · split
    · dsimp only
      split
      · exact hevict.trans hlistener
      · exact (growAndPoll_generation _ _ _).trans (hevict.trans hlistener)
    · exact growAndPoll_generation b reallocated poll

theorem acceptClient_generation (b : Broker) (events : Revents) (a : AcceptAnswers) :
    (b.acceptClient events a).generation = b.generation := by
  unfold acceptClient
  split
  · split <;> rfl
  · dsimp only
    split
    · split <;> rfl
    · split
      · rfl
      · split <;> rfl

theorem Inv.serveClient_ready (h : b.Inv) (hready : b.generation.state = .ready) {index : Nat}
    {client : ClientConnection} (hindex : b.clients[index]? = some client) (a : Answers) :
    (b.serveClient index client a).1.generation = b.generation := by
  obtain ⟨c, -, hmsg⟩ := h.served hindex a
  exact hmsg.ready_kept hready

theorem Inv.dispatchClient_ready (h : b.Inv) (hready : b.generation.state = .ready) (index : Nat)
    (events : Revents) (a : Answers) :
    (b.dispatchClient index events a).generation = b.generation := by
  unfold dispatchClient
  split
  · rfl
  · next client hclient =>
      split
      · rfl
      · have hexamined : (b.examineClient index client events a).1.generation = b.generation := by
          unfold examineClient
          split
          · rfl
          · split
            · exact h.serveClient_ready hready hclient a
            · rfl
        dsimp only
        split
        · exact hexamined
        · rw [closeClient_ready (by rw [hexamined]; exact hready), hexamined]

/-- Every step keeps a ready generation, but for the one with which the broker returns. -/
theorem Reachable.ready_kept (h : Reachable b) (hready : b.generation.state = .ready) (i : Input) :
    (b.step i).pc = .returned ∨ (b.step i).generation = b.generation := by
  cases i with
  | signal => exact .inr rfl
  | head reallocated poll =>
      right
      simp only [step]
      split
      · exact loopHead_ready hready reallocated poll
      · rfl
  | dispatch a =>
      right
      simp only [step]
      split
      · rfl
      · exact h.inv.dispatchClient_ready hready _ _ a
      · rfl
  | accept a =>
      right
      simp only [step]
      split
      · exact acceptClient_generation b _ a
      · rfl
  | leave =>
      simp only [step]
      split
      · exact .inl rfl
      · exact .inr rfl

/-- The phase of a ready generation is kept with it. -/
theorem Reachable.published_kept (h : Reachable b) {i : Input} {p : Nat} {size base offset : UInt64}
    {key : KeyBuffer} (hphase : b.ledger.phase = .published p size base offset key) :
    (b.step i).pc = .returned ∨ (b.step i).ledger.phase = b.ledger.phase := by
  have hrep := h.represents
  have hrep' := (h.step_reachable i).represents
  rw [hphase] at hrep
  have hready : b.generation.state = .ready := by
    cases hrep with
    | published hs _ => exact hs
  rcases h.ready_kept hready i with hreturned | hsame
  · exact .inl hreturned
  right
  have hne : (b.step i).ledger.phase ≠ .empty := by
    intro hempty
    rw [hempty, hsame] at hrep'
    rw [hrep'.state_empty] at hready
    cases hready
  rcases h.step_ledger i with ⟨labels, hrun⟩ | ⟨events, hstep⟩
  · exact (Ledger.upkeeps_phase hrun).resolve_right hne
  · exact (hstep.published_kept hphase).resolve_right hne

theorem returned_kept (h : b.pc = .returned) (i : Input) : (b.step i).pc = .returned := by
  cases i <;> simp [step, h]

end Broker

end Hyperglyph
