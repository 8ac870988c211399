import Hyperglyph.Broker.Retirement

/-! Who may hold a pair of memfds, and what the message that carried it says. -/
namespace Hyperglyph

open History

/-- The pair `p` belongs to the generation in hand, and `c` may hold it. -/
def Phase.HeldBy (ph : Phase) (c : ConnId) (p : Nat) : Prop :=
  match ph with
  | .empty => False
  | .building creator p' _ _ => creator = c ∧ p' = p
  | .published p' _ _ _ _ => p' = p

/-- `READY` left usable metadata. -/
def Phase.Usable : Phase → Prop
  | .published _ size base offset _ => base ≠ 0 ∧ offset < size
  | _ => True

/-- A reply with descriptors that fits the request `r` of its receiver. -/
structure Fits (r m : MessageV1) : Prop where
  request : r.type = MessageType.acquire.code
  mappingSize : m.mappingSize = r.mappingSize
  framed : m.framed = true
  metadata : m.type = MessageType.create.code ∨
    (m.type = MessageType.attach.code ∧ m.mappingBase ≠ 0 ∧ m.sharedGlobalsOffset < m.mappingSize)

section Served

variable {ph ph' : Phase} {next next' : Nat} {c c' : ConnId} {events : List Event} {keep : Bool}
  {m : MessageV1} {p q : Nat}

theorem Phase.HeldBy.pair (h : ph.HeldBy c p) : ph.pair? = some p := by
  cases ph with
  | empty => exact h.elim
  | building creator p' size key => exact congrArg some h.2
  | published p' size base offset key => exact congrArg some h

theorem Phase.HeldBy.leave (h : ph.HeldBy c p) (c' : ConnId) :
    (ph.leave c').HeldBy c p ∨ ph.leave c' = .empty := by
  unfold Phase.leave
  split
  · exact .inr rfl
  · exact .inl h

theorem Phase.Usable.leave (h : ph.Usable) (c : ConnId) : (ph.leave c).Usable := by
  unfold Phase.leave
  split
  · trivial
  · exact h

theorem Served.heldBy (h : Served ph next c events ph' next' keep) (hheld : ph.HeldBy c' p) :
    ph'.HeldBy c' p ∨ ph' = .empty := by
  cases h with
  | unread | dropped | answered | shared => exact .inl hheld
  | notCreated | aborted => exact .inr rfl
  | created _ _ _ _ _ hempty =>
      subst hempty
      exact hheld.elim
  | published d m _ _ haccepts =>
      cases ph with
      | empty | published => exact haccepts.elim
      | building creator p' size key => exact .inl hheld.2

theorem Served.usable (h : Served ph next c events ph' next' keep) (husable : ph.Usable) :
    ph'.Usable := by
  cases h with
  | unread | dropped | answered | shared => exact husable
  | created | notCreated | aborted => trivial
  | published d m _ _ haccepts =>
      cases ph with
      | empty | published => exact haccepts.elim
      | building creator p' size key =>
          obtain ⟨-, hsize, hbase, hoffset⟩ := haccepts
          exact ⟨hbase, hsize ▸ hoffset⟩

/-- A pair goes to a connection that may hold it, with a message that fits the request just
taken from it. -/
theorem Served.gives (h : Served ph next c events ph' next' keep) (husable : ph.Usable)
    (hmem : Event.sent c' m [.memfd p, .memfd q] ∈ events) :
    q = p + 1 ∧ ph'.HeldBy c' p ∧
      ∃ d r, Event.received c' d ∈ events ∧ brokerReceive d = .message r ∧ Fits r m := by
  cases h with
  | unread | dropped | answered | notCreated | published | aborted => simp at hmem
  | created d r sent hr htype =>
      obtain ⟨-, rfl, rfl, rfl, rfl⟩ : keep = true ∧ c' = c ∧
          m = { brokerMessageInit .create with mappingSize := r.mappingSize } ∧ p = next ∧
            q = next + 1 := by simpa using hmem
      exact ⟨rfl, ⟨rfl, rfl⟩, d, r, by simp, hr, ⟨htype, rfl, rfl, .inl rfl⟩⟩
  | shared d r p' sent hr htype hserves hpair =>
      obtain ⟨-, rfl, rfl, rfl, rfl⟩ : keep = true ∧ c' = c ∧ m = ph.share ∧ p = p' ∧ q = p' + 1 := by
        simpa using hmem
      cases ph with
      | empty => exact hserves.elim
      | building creator p' size key =>
          cases hpair
          exact ⟨rfl, ⟨hserves.1, rfl⟩, d, r, by simp, hr,
            ⟨htype, hserves.2.1.symm, rfl, .inl rfl⟩⟩
      | published p' size base offset key =>
          cases hpair
          exact ⟨rfl, rfl, d, r, by simp, hr, ⟨htype, hserves.1.symm, rfl, .inr ⟨rfl, husable⟩⟩⟩

/-- A reply without descriptors is none that promises them. -/
theorem Served.bare_reply (h : Served ph next c events ph' next' keep)
    (hmem : Event.sent c' m [] ∈ events) :
    m.type ≠ MessageType.create.code ∧ m.type ≠ MessageType.attach.code := by
  cases h with
  | unread | dropped | shared | created => simp at hmem
  | answered d r reply sent keep _ hreply =>
      obtain ⟨-, -, rfl⟩ : sent = true ∧ c' = c ∧ m = brokerMessageInit reply := by simpa using hmem
      cases hreply <;> exact ⟨by decide, by decide⟩
  | notCreated =>
      obtain ⟨-, -, rfl⟩ : keep = true ∧ c' = c ∧ m = brokerMessageInit .error := by simpa using hmem
      exact ⟨by decide, by decide⟩
  | published =>
      obtain ⟨-, rfl⟩ : c' = c ∧ m = brokerMessageInit .ack := by simpa using hmem
      exact ⟨by decide, by decide⟩
  | aborted =>
      obtain ⟨-, -, rfl⟩ : keep = true ∧ c' = c ∧ m = brokerMessageInit .ack := by simpa using hmem
      exact ⟨by decide, by decide⟩

end Served

namespace Ledger

variable {l l' : Ledger} {events : List Event} {c : ConnId} {m : MessageV1} {p q n : Nat}

/-- The pairs that were handed out: each is the generation in hand and its receiver may hold
it, or both its memfds are retired. -/
structure Custody (l : Ledger) : Prop where
  usable : l.phase.Usable
  given : ∀ c m p q, Given l.log c m p q →
    q = p + 1 ∧ (l.phase.HeldBy c p ∨ (l.Retired p ∧ l.Retired (p + 1)))
  fits : ∀ c m p q, Given l.log c m p q → ∃ r, Requested l.log c r ∧ Fits r m
  bare : ∀ c m, Event.sent c m [] ∈ l.log →
    m.type ≠ MessageType.create.code ∧ m.type ≠ MessageType.attach.code

theorem retired_of_empty (hphase : l.phase = .empty) (hn : n < l.next) : l.Retired n := by
  refine ⟨hn, ?_⟩
  intro p hp
  rw [hphase] at hp
  cases hp

theorem Step.heldBy (h : Step l events l') (hheld : l.phase.HeldBy c p) :
    l'.phase.HeldBy c p ∨ l'.phase = .empty := by
  cases h with
  | upkeep h =>
      rcases h.phase with heq | hempty
      · exact .inl (heq ▸ hheld)
      · exact .inr hempty
  | served _ hserved => exact hserved.heldBy hheld
  | @dismissed c' _ ph _ _ _ hserved =>
      rcases hserved.heldBy hheld with hkept | hempty
      · exact hkept.leave c'
      · right
        rw [hempty]
        rfl

theorem Step.usable (h : Step l events l') (husable : l.phase.Usable) : l'.phase.Usable := by
  cases h with
  | upkeep h =>
      rcases h.phase with heq | hempty
      · exact heq ▸ husable
      · rw [hempty]
        trivial
  | served _ hserved => exact hserved.usable husable
  | dismissed _ hserved => exact (hserved.usable husable).leave _

theorem Step.gives (h : Step l events l') (hinv : l.Inv) (husable : l.phase.Usable)
    (hmem : Event.sent c m [.memfd p, .memfd q] ∈ events) :
    q = p + 1 ∧ p + 1 < l'.next ∧ (l'.phase.HeldBy c p ∨ l'.phase = .empty) ∧
      ∃ d r, Event.received c d ∈ events ∧ brokerReceive d = .message r ∧ Fits r m := by
  cases h with
  | upkeep h => exact absurd hmem (h.sends_nothing c m _)
  | served _ hserved =>
      obtain ⟨hq, hheld, hfits⟩ := hserved.gives husable hmem
      exact ⟨hq, hserved.held hinv.held p hheld.pair, .inl hheld, hfits⟩
  | @dismissed c' _ ph _ _ _ hserved =>
      have hserve := (List.mem_append.mp hmem).resolve_right (by simp)
      obtain ⟨hq, hheld, d, r, hd, hrest⟩ := hserved.gives husable hserve
      exact ⟨hq, hserved.held hinv.held p hheld.pair, hheld.leave c', d, r,
        List.mem_append_left _ hd, hrest⟩

theorem Step.bare_reply (h : Step l events l') (hmem : Event.sent c m [] ∈ events) :
    m.type ≠ MessageType.create.code ∧ m.type ≠ MessageType.attach.code := by
  cases h with
  | upkeep h => exact absurd hmem (h.sends_nothing c m [])
  | served _ hserved => exact hserved.bare_reply hmem
  | dismissed _ hserved =>
      exact hserved.bare_reply ((List.mem_append.mp hmem).resolve_right (by simp))

theorem custody_start : start.Custody :=
  ⟨trivial, by simp [start, Given], by simp [start, Given], by simp [start]⟩

theorem Custody.step (h : l.Custody) (hinv : l.Inv) (hstep : Step l events l') : l'.Custody := by
  have hlog := hstep.log_eq
  have hretired : ∀ {p}, p + 1 < l'.next → l'.phase = .empty →
      l'.Retired p ∧ l'.Retired (p + 1) := fun hlt hempty =>
    ⟨retired_of_empty hempty (Nat.lt_of_succ_lt hlt), retired_of_empty hempty hlt⟩
  refine ⟨hstep.usable h.usable, ?_, ?_, ?_⟩
  · intro c m p q hgiven
    rw [hlog] at hgiven
    rcases List.mem_append.mp hgiven with hold | hnew
    · obtain ⟨hq, hheld | ⟨hp, hp'⟩⟩ := h.given c m p q hold
      · have hlt := Nat.lt_of_lt_of_le (hinv.held p hheld.pair) hstep.next_le
        exact ⟨hq, (hstep.heldBy hheld).imp id (hretired hlt)⟩
      · exact ⟨hq, .inr ⟨(hstep.retired hp).1, (hstep.retired hp').1⟩⟩
    · obtain ⟨hq, hlt, hheld, -⟩ := hstep.gives hinv h.usable hnew
      exact ⟨hq, hheld.imp id (hretired hlt)⟩
  · intro c m p q hgiven
    rw [hlog] at hgiven ⊢
    rcases List.mem_append.mp hgiven with hold | hnew
    · obtain ⟨r, hr, hfits⟩ := h.fits c m p q hold
      exact ⟨r, hr.extend events, hfits⟩
    · obtain ⟨-, -, -, d, r, hd, hr, hfits⟩ := hstep.gives hinv h.usable hnew
      exact ⟨r, ⟨d, List.mem_append_right _ hd, hr⟩, hfits⟩
  · intro c m hsent
    rw [hlog] at hsent
    rcases List.mem_append.mp hsent with hold | hnew
    · exact h.bare c m hold
    · exact hstep.bare_reply hnew

theorem Reachable.custody (h : Reachable l) : l.Custody := by
  refine Execution.Reachable.invariant_with (I := Custody) ?_ ?_ h
  · rintro l rfl
    exact custody_start
  · intro l events l' hl hcustody hstep
    exact hcustody.step (Reachable.inv hl) hstep

end Ledger

end Hyperglyph
