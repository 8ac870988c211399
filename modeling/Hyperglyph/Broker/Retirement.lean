import Hyperglyph.Broker.Lineage

/-! How a generation begins and ends: what each move of the ledger does to the one in hand, and
that the memfds of one that is no more stay out of every later answer. -/
namespace Hyperglyph

open History Octets

/-- An `ACQUIRE` the broker can create a generation for. -/
def ValidAcquire (d : List UInt8) (m : MessageV1) : Prop :=
  brokerReceive d = .message m ∧ m.type = MessageType.acquire.code ∧ requestInvalid m = false

section Served

variable {ph ph' : Phase} {next next' : Nat} {c c' : ConnId} {events : List Event} {keep : Bool}
  {d : List UInt8} {m : MessageV1} {attached : List Object}

theorem Served.received (h : Served ph next c events ph' next' keep)
    (hmem : Event.received c' d ∈ events) : c' = c := by
  cases h <;> simp_all

/-- A memfd outside the generation in hand stays outside and is not handed out. -/
theorem Served.retired (h : Served ph next c events ph' next' keep) {n : Nat} (hn : n < next)
    (hout : ∀ p, ph.pair? = some p → n ≠ p ∧ n ≠ p + 1) :
    (∀ p, ph'.pair? = some p → n ≠ p ∧ n ≠ p + 1) ∧
      ∀ c' m' attached, Event.sent c' m' attached ∈ events → Object.memfd n ∉ attached := by
  cases h with
  | unread | dropped | answered => exact ⟨hout, by simp +contextual⟩
  | shared d m p sent _ _ _ hpair =>
      refine ⟨hout, ?_⟩
      intro c' m' attached hmem
      obtain ⟨-, -, -, rfl⟩ : keep = true ∧ c' = c ∧ m' = ph.share ∧
          attached = [.memfd p, .memfd (p + 1)] := by simpa using hmem
      simpa using hout p hpair
  | created d m sent _ _ _ _ =>
      constructor
      · intro p hp
        cases hp
        omega
      · intro c' m' attached hmem
        have hattached : attached = [.memfd next, .memfd (next + 1)] := by
          simp only [List.mem_cons, reduceCtorEq, sent_eq_reply, List.not_mem_nil, or_false,
            false_or] at hmem
          exact hmem.2.2.2
        subst hattached
        simp only [List.mem_cons, Object.memfd.injEq, List.not_mem_nil, or_false, not_or]
        omega
  | notCreated | aborted => exact ⟨fun p hp => absurd hp Phase.pair?_empty, by simp +contextual⟩
  | published d m _ _ haccepts =>
      refine ⟨?_, by simp +contextual⟩
      cases ph with
      | empty | published => exact haccepts.elim
      | building => exact hout

/-- What an activation can do to a generation under construction. -/
theorem Served.building_cases {creator : ConnId} {p : Nat} {size : UInt64} {key : KeyBuffer}
    (h : Served (.building creator p size key) next c events ph' next' keep) :
    ph' = .building creator p size key ∨ (creator = c ∧ ph' = .empty) ∨
      ∃ d m, creator = c ∧ .received c d ∈ events ∧ brokerReceive d = .message m ∧
        m.type = MessageType.ready.code ∧
        ph' = .published p size m.mappingBase m.sharedGlobalsOffset key := by
  cases h with
  | unread | dropped | answered | shared => exact .inl rfl
  | created _ _ _ _ _ hph | notCreated _ _ _ _ _ _ hph => cases hph
  | aborted d m sent _ _ hcreator =>
      cases hcreator
      exact .inr (.inl ⟨rfl, rfl⟩)
  | published d m hm htype haccepts =>
      exact .inr (.inr ⟨d, m, haccepts.1, by simp, hm, htype, rfl⟩)

/-- `ABORT` of the creator empties the phase. -/
theorem Served.abort_empties (h : Served ph next c events ph' next' keep)
    (hmem : Event.received c d ∈ events) (hm : brokerReceive d = .message m)
    (htype : m.type = MessageType.abort.code) (hcreator : ph.creator? = some c) : ph' = .empty := by
  cases h with
  | unread => cases hmem
  | aborted => rfl
  | notCreated => rfl
  | dropped d' hd =>
      obtain rfl : d = d' := by simpa using hmem
      exact absurd hm (hd m)
  | answered d' m' reply sent keep hm' hreply =>
      obtain rfl : d = d' := by simpa using hmem
      rw [hm] at hm'
      cases hm'
      cases hreply with
      | ignored _ hother => exact absurd hcreator hother
      | declined h' | rejected h' | unacknowledged h' | detached h' =>
          exact absurd (MessageType.code_injective (htype.symm.trans h')) (by decide)
      | unknown _ _ h' => exact absurd htype h'
  | shared d' m' p sent hm' htype' | created d' m' sent hm' htype' | published d' m' hm' htype' =>
      obtain rfl : d = d' := by simpa using hmem
      rw [hm] at hm'
      cases hm'
      exact absurd (MessageType.code_injective (htype.symm.trans htype')) (by decide)

/-- A `CREATE` that was not sent leaves the generation with the connection it was for. -/
theorem Served.unsent_create (h : Served ph next c events ph' next' keep) {p q : Nat}
    (hmem : Event.unsent c' m [.memfd p, .memfd q] ∈ events)
    (htype : m.type = MessageType.create.code) : ph'.creator? = some c ∧ keep = false := by
  cases h with
  | unread | dropped | answered | notCreated | published | aborted => simp at hmem
  | created => exact ⟨rfl, by simp at hmem; exact hmem.1⟩
  | shared d' m' p' sent _ _ hserves _ =>
      obtain ⟨hkeep, -, rfl, -⟩ : keep = false ∧ c' = c ∧ m = ph.share ∧
          [Object.memfd p, .memfd q] = [.memfd p', .memfd (p' + 1)] := by simpa using hmem
      cases ph with
      | empty => exact hserves.elim
      | building => exact ⟨congrArg some hserves.1, hkeep⟩
      | published => exact absurd htype.symm create_ne_attach

/-- Only two answers carry descriptors: the creator's `CREATE`, and those of a generation that is
published. -/
theorem Served.hands_out (h : Served ph next c events ph' next' keep) {p q : Nat}
    (hmem : Event.sent c' m [.memfd p, .memfd q] ∈ events) : c' = c ∧
      (m.type = MessageType.create.code ∧ ph'.creator? = some c ∨
        m.type = MessageType.attach.code ∧
          ∃ size base offset key, ph = .published p size base offset key) := by
  cases h with
  | unread | dropped | answered | notCreated | published | aborted => simp at hmem
  | created d m' sent =>
      obtain ⟨-, rfl, rfl, -⟩ : keep = true ∧ c' = c ∧
          m = { brokerMessageInit .create with mappingSize := m'.mappingSize } ∧
          [Object.memfd p, .memfd q] = [.memfd next, .memfd (next + 1)] := by simpa using hmem
      exact ⟨rfl, .inl ⟨rfl, rfl⟩⟩
  | shared d m' p' sent _ _ hserves hpair =>
      obtain ⟨-, rfl, rfl, hattached⟩ : keep = true ∧ c' = c ∧ m = ph.share ∧
          [Object.memfd p, .memfd q] = [.memfd p', .memfd (p' + 1)] := by simpa using hmem
      cases ph with
      | empty => exact hserves.elim
      | building creator => exact ⟨rfl, .inl ⟨rfl, congrArg some hserves.1⟩⟩
      | published =>
          cases hpair
          cases hattached
          exact ⟨rfl, .inr ⟨rfl, _, _, _, _, rfl⟩⟩

end Served

namespace Ledger

variable {l l' : Ledger} {events : List Event} {n : Nat}

/-- The memfd `n` was made and is not part of the generation in hand. -/
def Retired (l : Ledger) (n : Nat) : Prop :=
  n < l.next ∧ ∀ p, l.phase.pair? = some p → n ≠ p ∧ n ≠ p + 1

theorem Upkeep.phase (h : Upkeep l events l') : l'.phase = l.phase ∨ l'.phase = .empty := by
  cases h with
  | quiet => exact .inl rfl
  | dissolved => exact .inr rfl
  | left =>
      simp only [Phase.leave]
      split
      · exact .inr rfl
      · exact .inl rfl

theorem Upkeep.next_eq (h : Upkeep l events l') : l'.next = l.next := by
  cases h <;> rfl

theorem Upkeep.handles_nothing (h : Upkeep l events l') (c : ConnId) (d : List UInt8) :
    Event.received c d ∉ events := by
  cases h with
  | quiet hquiet => rcases hquiet with rfl | rfl | ⟨c', _, rfl | rfl⟩ <;> simp
  | left | dissolved => simp

theorem Upkeep.sends_nothing (h : Upkeep l events l') (c : ConnId) (m : MessageV1)
    (attached : List Object) : Event.sent c m attached ∉ events := by
  cases h with
  | quiet hquiet => rcases hquiet with rfl | rfl | ⟨c', _, rfl | rfl⟩ <;> simp
  | left | dissolved => simp

theorem upkeeps_handle_nothing {labels : List (List Event)} (h : Execution.Run Upkeep l labels l')
    (hmem : events ∈ labels) (c : ConnId) (d : List UInt8) : Event.received c d ∉ events := by
  induction h with
  | start => cases hmem
  | next _ last ih =>
      rcases List.mem_append.mp hmem with hold | hnew
      · exact ih hold
      · rw [List.mem_singleton.mp hnew]
        exact last.handles_nothing c d

theorem Upkeep.retired (h : Upkeep l events l') (hn : l.Retired n) : l'.Retired n := by
  refine ⟨h.next_eq ▸ hn.1, ?_⟩
  intro p hp
  rcases h.phase with heq | heq
  · exact hn.2 p (heq ▸ hp)
  · rw [heq] at hp
    cases hp

theorem Step.retired (h : Step l events l') (hn : l.Retired n) :
    l'.Retired n ∧ ∀ c m attached, Event.sent c m attached ∈ events → Object.memfd n ∉ attached := by
  cases h with
  | upkeep h =>
      refine ⟨h.retired hn, ?_⟩
      intro c m attached hmem
      rw [h.bare c m attached (.inl hmem)]
      exact List.not_mem_nil
  | served _ hserved =>
      obtain ⟨hout, hsent⟩ := hserved.retired hn.1 hn.2
      exact ⟨⟨Nat.lt_of_lt_of_le hn.1 hserved.next_le, hout⟩, hsent⟩
  | @dismissed c _ ph _ _ _ hserved =>
      obtain ⟨hout, hsent⟩ := hserved.retired hn.1 hn.2
      refine ⟨⟨Nat.lt_of_lt_of_le hn.1 hserved.next_le, fun p hp => hout p (Phase.leave_pair hp).1⟩, ?_⟩
      intro c' m attached hmem
      rcases List.mem_append.mp hmem with hserve | hleave
      · exact hsent c' m attached hserve
      · simp at hleave

theorem Step.next_le (h : Step l events l') : l.next ≤ l'.next := by
  cases h with
  | upkeep h => exact h.next_eq.ge
  | served _ hserved | dismissed _ hserved => exact hserved.next_le

theorem Run.next_le {labels : List (List Event)} (h : Run l labels l') : l.next ≤ l'.next :=
  h.relates (R := fun l l' => l.next ≤ l'.next) (fun _ => le_rfl) fun hle hstep =>
    hle.trans hstep.next_le

theorem Run.retired {labels : List (List Event)} (h : Run l labels l') (hn : l.Retired n) :
    l'.Retired n ∧
      ∀ c m attached, Event.sent c m attached ∈ labels.flatten → Object.memfd n ∉ attached := by
  induction h with
  | start => exact ⟨hn, by simp⟩
  | next _ last ih =>
      obtain ⟨hretired, hbefore⟩ := ih
      obtain ⟨hretired', hlast⟩ := last.retired hretired
      refine ⟨hretired', ?_⟩
      intro c m attached hmem
      rw [List.flatten_append, List.flatten_singleton] at hmem
      rcases List.mem_append.mp hmem with hold | hnew
      · exact hbefore c m attached hold
      · exact hlast c m attached hnew

/-- The creator went away or gave up. -/
def GivenUp (events : List Event) (c : ConnId) : Prop :=
  Event.closed (.conn c) ∈ events ∨
    ∃ d m, Event.received c d ∈ events ∧ brokerReceive d = .message m ∧
      m.type = MessageType.abort.code

variable {c : ConnId} {p q : Nat} {size : UInt64} {key : KeyBuffer}

theorem upkeeps_phase {labels : List (List Event)} (h : Execution.Run Upkeep l labels l') :
    l'.phase = l.phase ∨ l'.phase = .empty := by
  induction h with
  | start => exact .inl rfl
  | next _ last ih =>
      rcases last.phase with heq | hempty
      · rw [heq]
        exact ih
      · exact .inr hempty

theorem upkeeps_bare {labels : List (List Event)} (h : Execution.Run Upkeep l labels l') :
    Bare labels.flatten := by
  induction h with
  | start => simp [Bare]
  | next _ last ih =>
      intro c m attached hmem
      rw [List.flatten_append, List.flatten_singleton, List.mem_append, List.mem_append] at hmem
      rcases hmem with (hold | hnew) | (hold | hnew)
      · exact ih c m attached (.inl hold)
      · exact last.bare c m attached (.inl hnew)
      · exact ih c m attached (.inr hold)
      · exact last.bare c m attached (.inr hnew)

theorem upkeeps_run {labels : List (List Event)} (h : Execution.Run Upkeep l labels l') :
    Run l labels l' := h.mono .upkeep

theorem Run.inv {labels : List (List Event)} (h : Run l labels l') (hinv : l.Inv) : l'.Inv :=
  h.preserves (I := Inv) Inv.step hinv

theorem upkeeps_given_up {labels : List (List Event)} (hinv : l.Inv)
    (h : Execution.Run Upkeep l labels l') (hphase : l.phase = .building c p size key)
    (hgone : GivenUp labels.flatten c) : l'.phase = .empty := by
  rcases upkeeps_phase h with heq | hempty
  · have hdoc := ((upkeeps_run h).inv hinv).documented
    rw [heq, hphase, (upkeeps_run h).log_eq] at hdoc
    rcases hgone with hclosed | ⟨d, m, hmem, -⟩
    · exact absurd (List.mem_append_right _ hclosed) hdoc.1.2
    · obtain ⟨events, hlabel, hmem'⟩ := List.mem_flatten.mp hmem
      exact absurd hmem' (upkeeps_handle_nothing h hlabel c d)
  · exact hempty

/-- A generation whose creator is gone, or asked for its end, before publication is no more. -/
theorem Step.given_up (hinv : l.Inv) (h : Step l events l')
    (hphase : l.phase = .building c p size key) (hgone : GivenUp events c) :
    l'.phase = .empty ∨ ∃ base offset, l'.phase = .published p size base offset key := by
  cases h with
  | upkeep h => exact .inl (upkeeps_given_up hinv (.single h) hphase (by simpa using hgone))
  | @served c' _ ph' next' _ hserved =>
      rw [hphase] at hserved
      rcases hserved.building_cases with rfl | ⟨-, rfl⟩ | ⟨d, m, -, -, -, -, rfl⟩
      · rcases hgone with hclosed | ⟨d, m, hmem, hm, htype⟩
        · exact absurd hclosed (hserved.closes_no_conn c)
        · obtain rfl := hserved.received hmem
          exact .inl (hserved.abort_empties hmem hm htype rfl)
      · exact .inl rfl
      · exact .inr ⟨_, _, rfl⟩
  | @dismissed c' events' ph' next' keep _ hserved =>
      rw [hphase] at hserved
      rcases hserved.building_cases with rfl | ⟨-, rfl⟩ | ⟨d, m, -, -, -, -, rfl⟩
      · left
        have hc : c = c' := by
          rcases hgone with hclosed | ⟨d, m, hmem, -⟩
          · rcases List.mem_append.mp hclosed with hin | hleave
            · exact absurd hin (hserved.closes_no_conn c)
            · exact Phase.leaveEvents_conn hleave
          · rcases List.mem_append.mp hmem with hin | hleave
            · exact hserved.received hin
            · simp at hleave
        simp [Phase.leave, Phase.creator?, hc]
      · exact .inl rfl
      · exact .inr ⟨_, _, rfl⟩

/-- Nothing but `READY` of the creator publishes a generation. -/
theorem Step.publishes (h : Step l events l') {base offset : UInt64}
    (hbefore : l.phase ≠ .published p size base offset key)
    (hafter : l'.phase = .published p size base offset key) :
    ∃ c d m, l.phase = .building c p size key ∧ Event.received c d ∈ events ∧
      brokerReceive d = .message m ∧ m.type = MessageType.ready.code ∧ m.mappingBase = base ∧
      m.sharedGlobalsOffset = offset := by
  have hserved : ∀ {c served ph next keep}, Served l.phase l.next c served ph next keep →
      ph = .published p size base offset key →
      (∀ d, Event.received c d ∈ served → Event.received c d ∈ events) →
      ∃ c d m, l.phase = .building c p size key ∧ Event.received c d ∈ events ∧
        brokerReceive d = .message m ∧ m.type = MessageType.ready.code ∧ m.mappingBase = base ∧
        m.sharedGlobalsOffset = offset := by
    intro c served ph next keep hserved hph hsub
    generalize hphase : l.phase = before at hserved hbefore
    cases hserved with
    | unread | dropped | answered | shared => exact absurd hph hbefore
    | created | notCreated | aborted => cases hph
    | published d m hm htype haccepts =>
        cases before with
        | empty | published => exact haccepts.elim
        | building creator p' size' key' =>
            obtain ⟨rfl, -⟩ := haccepts
            cases hph
            exact ⟨creator, d, m, rfl, hsub d List.mem_cons_self, hm, htype, rfl, rfl⟩
  cases h with
  | upkeep h =>
      rcases h.phase with heq | hempty
      · exact absurd (heq.symm.trans hafter) hbefore
      · rw [hempty] at hafter
        cases hafter
  | served _ h => exact hserved h hafter fun _ hmem => hmem
  | dismissed _ h =>
      refine hserved h ?_ fun _ hmem => List.mem_append_left _ hmem
      dsimp only [Phase.leave] at hafter
      split at hafter
      · cases hafter
      · exact hafter

/-- Nothing but a valid `ACQUIRE` starts a generation. -/
theorem Step.stays_empty (h : Step l events l') (hphase : l.phase = .empty)
    (hnone : ∀ c d m, Event.received c d ∈ events → ¬ ValidAcquire d m) : l'.phase = .empty := by
  have hserved : ∀ {c served ph next keep}, Served l.phase l.next c served ph next keep →
      (∀ d, Event.received c d ∈ served → Event.received c d ∈ events) → ph = .empty := by
    intro c served ph next keep hserved hsub
    rw [hphase] at hserved
    cases hserved with
    | unread | dropped | answered | shared | notCreated | aborted => rfl
    | published _ _ _ _ haccepts => exact haccepts.elim
    | created d m _ hm htype _ hvalid =>
        exact absurd ⟨hm, htype, hvalid⟩ (hnone c d m (hsub d List.mem_cons_self))
  cases h with
  | upkeep h =>
      rcases h.phase with heq | hempty
      · exact heq.trans hphase
      · exact hempty
  | served _ h => exact hserved h fun _ hmem => hmem
  | dismissed _ h =>
      rw [hserved h fun _ hmem => List.mem_append_left _ hmem]
      rfl

/-- A generation whose `CREATE` could not be sent is no more. -/
theorem Step.unsent_create {m : MessageV1} (h : Step l events l')
    (hmem : Event.unsent c m [.memfd p, .memfd q] ∈ events)
    (htype : m.type = MessageType.create.code) : l'.phase = .empty := by
  cases h with
  | upkeep h => exact absurd (h.bare c m _ (.inr hmem)) (by simp)
  | served _ hserved => exact absurd (hserved.unsent_create hmem htype).2 (by decide)
  | dismissed _ hserved =>
      rcases List.mem_append.mp hmem with hin | hleave
      · simp [Phase.leave, (hserved.unsent_create hin htype).1]
      · simp at hleave

/-- A generation is no more whose `CREATE` was sent to a connection that was closed right then. -/
theorem Step.closed_create {m : MessageV1} (h : Step l events l')
    (hmem : Event.sent c m [.memfd p, .memfd q] ∈ events)
    (htype : m.type = MessageType.create.code) (hclosed : Event.closed (.conn c) ∈ events) :
    l'.phase = .empty := by
  cases h with
  | upkeep h => exact absurd (h.bare c m _ (.inl hmem)) (by simp)
  | served _ hserved => exact absurd hclosed (hserved.closes_no_conn c)
  | dismissed _ hserved =>
      rcases List.mem_append.mp hmem with hin | hleave
      · obtain ⟨rfl, ⟨-, hcreator⟩ | ⟨hattach, -⟩⟩ := hserved.hands_out hin
        · simp [Phase.leave, hcreator]
        · exact absurd (htype.symm.trans hattach) create_ne_attach
      · simp at hleave

/-- Descriptors go out with `CREATE`, or when the generation is published. -/
theorem Step.hands_out {m : MessageV1} (h : Step l events l')
    (hmem : Event.sent c m [.memfd p, .memfd q] ∈ events) :
    m.type = MessageType.create.code ∨
      ∃ size base offset key, l.phase = .published p size base offset key := by
  cases h with
  | upkeep h => exact absurd (h.bare c m _ (.inl hmem)) (by simp)
  | served _ hserved => exact (hserved.hands_out hmem).2.imp And.left And.right
  | dismissed _ hserved =>
      rcases List.mem_append.mp hmem with hin | hleave
      · exact (hserved.hands_out hin).2.imp And.left And.right
      · simp at hleave

end Ledger

end Hyperglyph
