import Hyperglyph.Deployment.Activation
import Hyperglyph.Deployment.Provenance

/-! A process asks for a generation once, so it is given descriptors at most once. The count
of requests still to be made, requests on their way and replies with descriptors never
exceeds one. -/
namespace Hyperglyph

def isAcquire (d : List UInt8) : Bool :=
  match brokerReceive d with
  | .message m => m.type == MessageType.acquire.code
  | _ => false

/-- The event sends descriptors to `c`. -/
def isShare (c : ConnId) : Event → Bool
  | .sent c' _ (_ :: _) => c' == c
  | _ => false

def acquires (q : List (List UInt8)) : Nat := q.countP isAcquire
def shares (c : ConnId) (events : List Event) : Nat := events.countP (isShare c)

@[simp] theorem acquires_nil : acquires [] = 0 := rfl
@[simp] theorem shares_nil (c : ConnId) : shares c [] = 0 := rfl
@[simp] theorem acquires_append (q q' : List (List UInt8)) :
    acquires (q ++ q') = acquires q + acquires q' := List.countP_append
@[simp] theorem shares_append (c : ConnId) (events more : List Event) :
    shares c (events ++ more) = shares c events + shares c more := List.countP_append

theorem isAcquire_eq_true {d : List UInt8} {m : MessageV1} (hm : brokerReceive d = .message m)
    (htype : m.type = MessageType.acquire.code) : isAcquire d = true := by
  simp [isAcquire, hm, htype]

theorem isAcquire_encode {m : MessageV1} (h : m.framed = true) :
    isAcquire m.encode = (m.type == MessageType.acquire.code) := by
  simp [isAcquire, brokerReceive_encode h]

theorem Drains.acquires_eq {closed : Bool} {q taken q' : List (List UInt8)}
    (h : Drains closed q taken q') : acquires q = acquires taken + acquires q' := by
  induction h with
  | done q => exact (Nat.zero_add _).symm
  | head d _ ih =>
      simp only [acquires, List.countP_cons] at ih ⊢
      omega
  | hangup _ _ ih =>
      have hnil : isAcquire [] = false := by simp [isAcquire, brokerReceive]
      simpa only [acquires, List.countP_cons, hnil, Bool.false_eq_true, if_false, Nat.add_zero] using ih

/-- Two events that send descriptors to `c` are one. -/
theorem share_unique {c : ConnId} {events : List Event} (h : shares c events ≤ 1) {e e' : Event}
    (he : e ∈ events) (he' : e' ∈ events) (hs : isShare c e = true) (hs' : isShare c e' = true) :
    e = e' := by
  have hlen : (events.filter (isShare c)).length ≤ 1 := by
    rwa [← List.countP_eq_length_filter]
  have hin : e ∈ events.filter (isShare c) := List.mem_filter.mpr ⟨he, hs⟩
  have hin' : e' ∈ events.filter (isShare c) := List.mem_filter.mpr ⟨he', hs'⟩
  match hfilter : events.filter (isShare c), hlen with
  | [], _ =>
      rw [hfilter] at hin
      cases hin
  | [only], _ =>
      rw [hfilter] at hin hin'
      rw [List.mem_singleton.mp hin, List.mem_singleton.mp hin']

section Served

variable {ph ph' : Phase} {next next' : Nat} {c c' : ConnId} {events : List Event} {keep : Bool}

@[simp] theorem isShare_bare (sent : Bool) (m : MessageV1) :
    isShare c (replyEvent c' m [] sent) = false := by
  cases sent <;> rfl

theorem shares_reply_le (d : List UInt8) (m : MessageV1) (attached : List Object) (sent : Bool) :
    shares c [.received c' d, replyEvent c' m attached sent] ≤ if c' = c then 1 else 0 := by
  cases attached with
  | nil => cases sent <;> simp [shares, isShare, replyEvent]
  | cons o rest => cases sent <;> simp [shares, isShare, replyEvent, List.countP_cons]

/-- The broker sends descriptors only in answer to `ACQUIRE`. -/
theorem Served.shares_le (h : Served ph next c' events ph' next' keep) (c : ConnId) :
    shares c events ≤ acquires (takenFrom c events) := by
  have hacquire : ∀ {d : List UInt8} {m : MessageV1} {e : Event}, brokerReceive d = .message m →
      m.type = MessageType.acquire.code →
      (if c' = c then 1 else 0) ≤ acquires (takenFrom c [.received c' d, e]) := by
    intro d m e hm htype
    split
    · next heq =>
        have hin : List.Sublist [d] (takenFrom c [.received c' d, e]) := by
          simp [takenFrom, heq, List.filterMap_cons]
        have hle : acquires [d] ≤ acquires (takenFrom c [.received c' d, e]) := hin.countP_le
        simpa [acquires, isAcquire_eq_true hm htype] using hle
    · exact Nat.zero_le _
  cases h with
  | unread => exact le_rfl
  | dropped | published => simp [shares, isShare]
  | answered d m reply sent => cases sent <;> simp [shares, isShare, replyEvent]
  | notCreated d m made =>
      have hnone : shares c (.received c' d ::
          ((List.range made).map fun i => Event.closed (.memfd (next + i))) ++
            [replyEvent c' (brokerMessageInit .error) [] keep]) = 0 := by
        rw [shares, List.countP_eq_zero]
        intro e he
        simp only [List.cons_append, List.mem_cons, List.mem_append, List.mem_map, List.mem_range,
          List.not_mem_nil, or_false] at he
        rcases he with rfl | ⟨i, -, rfl⟩ | rfl
        · simp [isShare]
        · simp [isShare]
        · simp
      omega
  | aborted d m =>
      have hnone : shares c (.received c' d :: ph.leaveEvents c' ++
            [replyEvent c' (brokerMessageInit .ack) [] keep]) = 0 := by
        rw [shares, List.countP_eq_zero]
        intro e he
        simp only [List.cons_append, List.mem_cons, List.mem_append, Phase.mem_leaveEvents,
          List.not_mem_nil, or_false] at he
        rcases he with rfl | ⟨-, p, -, rfl | rfl⟩ | rfl
        · simp [isShare]
        · simp [isShare]
        · simp [isShare]
        · simp
      omega
  | shared d m p sent hm htype | created d m sent hm htype =>
      exact (shares_reply_le d _ _ _).trans (hacquire hm htype)

end Served

namespace Ledger

theorem Upkeep.shares_eq_zero {l l' : Ledger} {events : List Event} (h : Upkeep l events l')
    (c : ConnId) : shares c events = 0 := by
  rw [shares, List.countP_eq_zero]
  intro e he
  cases e with
  | sent c' m attached =>
      rw [h.bare c' m attached (.inl he)]
      exact Bool.noConfusion
  | _ => exact Bool.noConfusion

theorem Step.shares_le {l l' : Ledger} {events : List Event} (h : Step l events l') (c : ConnId) :
    shares c events ≤ acquires (takenFrom c events) := by
  cases h with
  | upkeep h =>
      rw [h.shares_eq_zero c]
      exact Nat.zero_le _
  | served _ hserved => exact hserved.shares_le c
  | @dismissed c' _ ph _ _ _ hserved =>
      have hleave : shares c (ph.leaveEvents c' ++ [.closed (.conn c')]) = 0 := by
        rw [shares, List.countP_eq_zero]
        intro e he
        simp only [List.mem_append, Phase.mem_leaveEvents, List.mem_singleton] at he
        rcases he with ⟨-, p, -, rfl | rfl⟩ | rfl <;> exact Bool.noConfusion
      rw [shares_append, hleave, takenFrom_append, acquires_append]
      exact (hserved.shares_le c).trans (Nat.le_add_right _ _)

theorem Run.shares_le {l l' : Ledger} {labels : List (List Event)} (h : Run l labels l')
    (c : ConnId) : shares c labels.flatten ≤ acquires (takenFrom c labels.flatten) := by
  induction h with
  | start => exact Nat.zero_le _
  | next _ last ih =>
      rw [List.flatten_append, List.flatten_singleton, shares_append, takenFrom_append, acquires_append]
      exact Nat.add_le_add ih (last.shares_le c)

end Ledger

namespace Deployment

variable {config : ConnId → Config} {s t : Deployment} {c : ConnId}

/-- The process has not sent its request yet. -/
def unasked (pc : ParticipantPc) : Nat :=
  match pc with
  | .idle | .connected => 1
  | _ => 0

theorem unasked_of_late {pc : ParticipantPc} (h : pc.late = true) : unasked pc = 0 := by
  cases pc <;> first | rfl | cases h

/-- What `c` has asked or may still ask, and what it was given. -/
def budget (s : Deployment) (c : ConnId) : Nat :=
  unasked (s.participants c).pc + acquires (s.channels c).toBroker + shares c s.log

theorem budget_acted {x x' : Participant} {ch ch' : Channel} {happened : List Happening}
    {config : Config} (hact : Acted config c x ch (x', ch', happened)) :
    unasked x'.pc + acquires ch'.toBroker ≤ unasked x.pc + acquires ch.toBroker := by
  have hnotAcquire : ∀ type : MessageType, type ≠ .acquire →
      acquires [(brokerMessageInit type).encode] = 0 := by
    intro type hne
    have hframed : (brokerMessageInit type).framed = true := rfl
    rw [acquires, List.countP_eq_zero]
    intro d hd
    rw [List.mem_singleton.mp hd, isAcquire_encode hframed]
    simpa using fun heq => hne (MessageType.code_injective heq)
  cases hact with
  | stayed => exact le_rfl
  | begun hpc hpc' =>
      rw [hpc, hpc']
      exact le_rfl
  | @asked x' path key hpc hpc' =>
      have hone : acquires [(acquireRequest key config.requestedSize).encode] ≤ 1 :=
        List.countP_le_length
      rw [hpc, hpc', Channel.push_toBroker, acquires_append]
      simp only [unasked]
      omega
  | obtained hpc hpc' =>
      rw [hpc']
      simp [unasked]
  | @offered x' sharedGlobals hpc hpc' =>
      have hframed : (readyRequest x.client sharedGlobals).framed = true := rfl
      have hready : acquires [(readyRequest x.client sharedGlobals).encode] = 0 := by
        rw [acquires, List.countP_eq_zero]
        intro d hd
        rw [List.mem_singleton.mp hd, isAcquire_encode hframed]
        exact (by decide : ¬ ((MessageType.ready.code == MessageType.acquire.code) = true))
      rw [hpc, hpc', Channel.push_toBroker, acquires_append, hready]
      exact le_rfl
  | confirmed _ hlate =>
      rw [unasked_of_late hlate]
      simp
  | @notified x' type _ _ hlate htype =>
      rw [unasked_of_late hlate, Channel.push_toBroker, acquires_append,
        hnotAcquire type (by rcases htype with rfl | rfl <;> decide)]
      omega
  | silent hlate _ hb =>
      rw [unasked_of_late hlate, hb]
      omega

theorem Reachable.budget_le (h : Reachable config s) (c : ConnId) : s.budget c ≤ 1 := by
  refine Execution.Reachable.invariant_with (I := fun s : Deployment => s.budget c ≤ 1) ?_ ?_ h
  · rintro s ⟨maxClients, listenerFd, rfl⟩
    exact le_rfl
  · intro s label t hs hle hstep
    cases label with
    | broker i =>
        obtain ⟨hbroker, hparticipants, -, habsorb⟩ := stepBroker_eq_some hstep
        have hb := Reachable.broker hs
        obtain ⟨labels, hrun⟩ := hb.step_refines i
        have hnew := Broker.newEvents_eq hrun
        have hlog : t.log = s.log ++ labels.flatten := by
          rw [log, hbroker, ← hnew]
          exact hb.log_step i
        have hdrain := ((absorbed habsorb c).toBroker).acquires_eq
        rw [hnew] at hdrain
        have hshare := hrun.shares_le c
        simp only [budget, hparticipants, hlog, shares_append] at hle ⊢
        omega
    | participant c' act =>
        cases hstep
        obtain ⟨happened, hact⟩ := stepParticipant_spec config s c' act
        have hlog : (s.stepParticipant config c' act).log = s.log := by rw [log, hact.broker]
        unfold budget at hle ⊢
        rw [hlog]
        by_cases heq : c = c'
        · subst heq
          have hbudget := budget_acted hact.acted
          omega
        · rw [(hact.others c heq).1, (hact.others c heq).2]
          exact hle

/-- The descriptors `c` was given are one pair. -/
theorem Reachable.given_unique (h : Reachable config s) {m m' : MessageV1} {p q p' q' : Nat}
    (hg : Given s.log c m p q) (hg' : Given s.log c m' p' q') : m = m' ∧ p = p' ∧ q = q' := by
  have hle : shares c s.log ≤ 1 := by
    have hbudget := h.budget_le c
    unfold budget at hbudget
    omega
  have heq := share_unique hle hg hg' (by simp [isShare]) (by simp [isShare])
  simpa using heq

end Deployment

end Hyperglyph
