import Hyperglyph.Broker.SingleCreator
import Hyperglyph.Deployment.Agreement
import Hyperglyph.Deployment.Publication

/-! A creator that gives up its publication. The broker commits `READY` on its own, so the
generation of a process that was too late to hear of it stays; one that is still under
construction when `ABORT` arrives is never handed out again. -/
namespace Hyperglyph

open History

def IsAbort (d : List UInt8) : Prop :=
  ∃ m, brokerReceive d = .message m ∧ m.type = MessageType.abort.code

theorem not_abort_of_type {m : MessageV1} {type : MessageType} (hframed : m.framed = true)
    (htype : m.type = type.code) (hne : type ≠ .abort) : ¬ IsAbort m.encode := by
  rintro ⟨m', hm', habort⟩
  rw [brokerReceive_encode hframed] at hm'
  cases hm'
  exact hne (MessageType.code_injective (htype.symm.trans habort))

theorem not_abort_nil : ¬ IsAbort [] := fun ⟨_, hm, _⟩ => brokerReceive_nil hm

namespace Broker

variable {b : Broker} {c c' : ConnId} {d : List UInt8} {m : MessageV1} {p q n : Nat} {i : Input}

theorem Reachable.custody (h : Reachable b) : b.ledger.Custody := h.refines.custody

theorem Reachable.retired_step (h : Reachable b) (hn : b.ledger.Retired n) (i : Input) :
    (b.step i).ledger.Retired n ∧ ∀ c m attached,
      Event.sent c m attached ∈ b.newEvents (b.step i) → Object.memfd n ∉ attached := by
  obtain ⟨labels, hrun⟩ := h.step_refines i
  rw [newEvents_eq hrun]
  exact hrun.retired hn

/-- A pair goes out in the step that takes the `ACQUIRE` of its receiver. -/
theorem Reachable.gives (h : Reachable b)
    (hmem : Event.sent c m [.memfd p, .memfd q] ∈ b.newEvents (b.step i)) :
    ∃ d r, Event.received c d ∈ b.newEvents (b.step i) ∧ brokerReceive d = .message r ∧ Fits r m := by
  rcases h.step_ledger i with ⟨labels, hrun⟩ | ⟨events, hstep⟩
  · rw [newEvents_eq (Ledger.upkeeps_run hrun)] at hmem
    exact absurd hmem (sentTo_eq_nil.mp (Ledger.upkeeps_apart hrun c).2.1 m _)
  · rw [newEvents_eq (.single hstep), List.flatten_singleton] at hmem ⊢
    exact (hstep.gives h.refines.inv h.custody.usable hmem).2.2.2

/-- In a step that takes `ABORT` nothing is handed out. -/
theorem Reachable.abort_gives_nothing (h : Reachable b) (habort : IsAbort d)
    (hmem : Event.received c d ∈ b.newEvents (b.step i)) {attached : List Object}
    (hsent : Event.sent c' m attached ∈ b.newEvents (b.step i)) : attached = [] := by
  have hin : Event.sent c' m attached ∈ (b.step i).kernel.log := by
    rw [h.log_step i]
    exact List.mem_append_right _ hsent
  rcases (h.step_reachable i).refines.inv.records.pairs c' m attached (.inl hin) with
    hnil | ⟨p, rfl, -⟩
  · exact hnil
  · obtain ⟨d', r, hd', hr, hfits⟩ := h.gives hsent
    obtain rfl := h.one_sender hmem hd'
    cases h.view i c' with
    | apart htaken =>
        rw [takenFrom_eq_nil] at htaken
        exact absurd hmem (htaken d)
    | active _ _ _ _ htaken =>
        have hone := mem_takenFrom.mpr hmem
        have hone' := mem_takenFrom.mpr hd'
        rw [htaken, List.mem_singleton] at hone hone'
        subst hone hone'
        obtain ⟨m', hm', htype⟩ := habort
        rw [hr] at hm'
        cases hm'
        exact absurd (MessageType.code_injective (hfits.request.symm.trans htype)) (by decide)

/-- `ABORT` retires the pair its sender was given, unless that is published. -/
theorem Reachable.abort_retires (h : Reachable b) (habort : IsAbort d)
    (hmem : Event.received c d ∈ b.newEvents (b.step i)) (hgiven : Given b.kernel.log c m p q)
    (hunready : ∀ size base offset key, b.ledger.phase ≠ .published p size base offset key) :
    (b.step i).ledger.Retired p := by
  obtain ⟨m', hm', htype⟩ := habort
  rcases (h.custody.given c m p q hgiven).2 with hheld | ⟨hretired, -⟩
  · obtain ⟨labels, hrun⟩ := h.step_refines i
    have hmade : p + 1 < b.ledger.next := h.refines.inv.held p hheld.pair
    have hlt : p < (b.step i).ledger.next :=
      Nat.lt_of_succ_lt (Nat.lt_of_lt_of_le hmade hrun.next_le)
    refine Ledger.retired_of_empty ?_ hlt
    have hcreator : b.ledger.phase.creator? = some c := by
      generalize hphase : b.ledger.phase = ph at hheld hunready
      cases ph with
      | empty => exact hheld.elim
      | building creator p' size key => exact congrArg some hheld.1
      | published p' size base offset key =>
          obtain rfl : p' = p := hheld
          exact absurd rfl (hunready size base offset key)
    cases h.view i c with
    | apart htaken =>
        rw [takenFrom_eq_nil] at htaken
        exact absurd hmem (htaken d)
    | active _ _ hserved hin htaken _ _ _ hphase =>
        have hone := mem_takenFrom.mpr hmem
        rw [htaken, List.mem_singleton] at hone
        subst hone
        have hempty := hserved.abort_empties hin hm' htype hcreator
        rcases hphase with ⟨-, heq⟩ | ⟨heq, -⟩
        · exact heq.trans hempty
        · rw [heq, hempty]
          rfl
  · exact (h.retired_step hretired i).1

end Broker

namespace Deployment

variable {config : ConnId → Config} {s t : Deployment} {c c' : ConnId}

/-- No `ABORT` of a process that is still starting is on its way, or was taken. -/
structure Unaborted (s : Deployment) (c : ConnId) : Prop where
  queued : (s.participants c).pc.late = false → ∀ d ∈ (s.channels c).toBroker, ¬ IsAbort d
  taken : (s.participants c).pc.late = false → ∀ d, Event.received c d ∈ s.log → ¬ IsAbort d

theorem unaborted_start (maxClients listenerFd : Nat) (c : ConnId) :
    (start maxClients listenerFd).Unaborted c where
  queued := by simp [start, Channel.fresh]
  taken := by simp [start, log, Broker.start]

theorem Unaborted.broker (h : s.Unaborted c) (hs : Reachable config s) {i : Input}
    (hstep : s.stepBroker i = some t) : t.Unaborted c := by
  obtain ⟨hbroker, hparticipants, -, habsorb⟩ := stepBroker_eq_some hstep
  have hdrain := (absorbed habsorb c).toBroker
  have hlog : t.log = s.log ++ s.broker.newEvents (s.broker.step i) := by
    rw [log, hbroker]
    exact hs.broker.log_step i
  constructor
  · intro hpc d hd
    rw [hparticipants] at hpc
    exact h.queued hpc d (hdrain.suffix.subset hd)
  · intro hpc d hd
    rw [hparticipants] at hpc
    rw [hlog] at hd
    rcases List.mem_append.mp hd with hold | hnew
    · exact h.taken hpc d hold
    · rcases hdrain.taken_mem (mem_takenFrom.mpr hnew) with hq | ⟨rfl, -⟩
      · exact h.queued hpc d hq
      · exact not_abort_nil

/-- A process sends `ABORT` only when its startup is over. -/
theorem Unaborted.acted (h : s.Unaborted c) {happened : List Happening}
    (hstep : ActStep config s c t happened) :
    (t.participants c).pc.late = false →
      (s.participants c).pc.late = false ∧ ∀ d ∈ (t.channels c).toBroker, ¬ IsAbort d := by
  have hqueued := h.queued
  have hact := hstep.acted
  generalize t.participants c = x', t.channels c = ch' at hact
  intro hpc
  have hearly : ∀ {pc}, (s.participants c).pc = pc → pc.late = false →
      (s.participants c).pc.late = false := fun heq hpc => heq ▸ hpc
  have hpush : ∀ {m : MessageV1}, (s.participants c).pc.late = false → ¬ IsAbort m.encode →
      ∀ d ∈ ((s.channels c).push m).toBroker, ¬ IsAbort d := by
    intro m hpc hm d hd
    rcases List.mem_append.mp hd with hold | hnew
    · exact hqueued hpc d hold
    · rw [List.mem_singleton.mp hnew]
      exact hm
  cases hact with
  | stayed => exact ⟨hpc, hqueued hpc⟩
  | begun hpc₀ => exact ⟨hearly hpc₀ rfl, hqueued (hearly hpc₀ rfl)⟩
  | asked hpc₀ =>
      exact ⟨hearly hpc₀ rfl, hpush (hearly hpc₀ rfl) (not_abort_of_type rfl rfl
        (show MessageType.acquire ≠ .abort by decide))⟩
  | obtained hpc₀ => exact ⟨hearly hpc₀ rfl, hqueued (hearly hpc₀ rfl)⟩
  | offered hpc₀ =>
      exact ⟨hearly hpc₀ rfl, hpush (hearly hpc₀ rfl) (not_abort_of_type rfl rfl
        (show MessageType.ready ≠ .abort by decide))⟩
  | confirmed _ hlate | silent hlate =>
      rw [hpc] at hlate
      cases hlate
  | notified _ _ hlate =>
      rw [hpc] at hlate
      cases hlate

theorem Reachable.unaborted (h : Reachable config s) (c : ConnId) : s.Unaborted c := by
  refine Execution.Reachable.invariant_with (I := fun s : Deployment => s.Unaborted c) ?_ ?_ h
  · rintro s ⟨maxClients, listenerFd, rfl⟩
    exact unaborted_start maxClients listenerFd c
  · intro s label t hs hun hstep
    cases label with
    | broker i => exact hun.broker hs hstep
    | participant c' act =>
        cases hstep
        obtain ⟨happened, hact⟩ := stepParticipant_spec config s c' act
        have hlog : (s.stepParticipant config c' act).log = s.log := by rw [log, hact.broker]
        by_cases heq : c = c'
        · subst heq
          constructor
          · exact fun hpc => (hun.acted hact hpc).2
          · intro hpc d hd
            rw [hlog] at hd
            exact hun.taken (hun.acted hact hpc).1 d hd
        · obtain ⟨hchannel, hparticipant⟩ := hact.others c heq
          constructor
          · rw [hchannel, hparticipant]
            exact hun.queued
          · rw [hlog, hparticipant]
            exact hun.taken

/-- The generation that the process acquired is ready. -/
def IsReadyGeneration (b : Broker) (acquisition : Acquisition) : Prop :=
  b.generation.state = .ready ∧ b.kernel.fds.get b.generation.cacheFd = acquisition.cache

/-- If this step of the broker handles `ABORT` of a creator, that creator's generation is not
ready. -/
def InTime (s : Deployment) : Label → Prop
  | .broker i => ∀ c acquisition d, .acquired c acquisition ∈ s.history →
      acquisition.status = .allocSuccess → IsAbort d →
      Event.received c d ∈ s.broker.newEvents (s.broker.step i) →
      ¬ IsReadyGeneration s.broker acquisition
  | .participant _ _ => True

/-- After the `ABORT` of a process that reported its persistence abandoned, nobody is answered
`ATTACH` with the descriptors of its generation. -/
def AbandonedUnattachable (s : Deployment) : Prop :=
  ∀ c acquisition cache lock d c' m, .abandoned c ∈ s.history → .acquired c acquisition ∈ s.history →
    acquisition.status = .allocSuccess → acquisition.cache = some cache →
    acquisition.lock = some lock → IsAbort d → m.type = MessageType.attach.code →
    ¬ Precedes s.log (.received c d) (.sent c' m [cache, lock])

/-- The cache memfd of a creator whose `ABORT` was handled is out of use for good. -/
def Forsaken (s : Deployment) : Prop :=
  ∀ c acquisition p d, .acquired c acquisition ∈ s.history → acquisition.status = .allocSuccess →
    acquisition.cache = some (.memfd p) → IsAbort d → Event.received c d ∈ s.log →
    s.broker.ledger.Retired p ∧
      ∀ c' m attached, Precedes s.log (.received c d) (.sent c' m attached) →
        Object.memfd p ∉ attached

theorem Reachable.acquired_given (h : Reachable config s) {acquisition : Acquisition}
    (hmem : .acquired c acquisition ∈ s.history) (hstatus : acquisition.status = .allocSuccess) :
    ∃ m p, acquisition.cache = some (.memfd p) ∧ Given s.log c m p (p + 1) := by
  rcases h.provenance.acquisitions c acquisition hmem with hfail | ⟨packet, hsent, hfollows⟩
  · rw [hstatus] at hfail
    cases hfail
  · obtain ⟨cache, lock, hattached, hcache, -⟩ := hfollows.objects
    rw [hattached] at hsent
    obtain ⟨p, rfl, -, hgiven⟩ := h.records.pair_of_sent hsent
    exact ⟨packet.message, p, hcache, hgiven⟩

theorem ActStep.acquires {happened : List Happening} (hstep : ActStep config s c t happened)
    {acquisition : Acquisition} (hmem : .acquired c' acquisition ∈ happened)
    (hstatus : acquisition.status = .allocSuccess) :
    c' = c ∧ (s.participants c).pc = .awaitAllocation := by
  have hact := hstep.acted
  generalize t.participants c = x', t.channels c = ch' at hact
  cases hact with
  | stayed | begun => cases hmem
  | asked | offered | confirmed | notified => simp at hmem
  | obtained hpc =>
      obtain ⟨rfl, -⟩ : c' = c ∧ acquisition = _ := by simpa using hmem
      exact ⟨rfl, hpc⟩
  | silent _ _ _ _ _ hidle =>
      obtain ⟨-, hfail⟩ := hidle _ hmem
      rw [hstatus] at hfail
      cases hfail

theorem not_published_of_inTime (hs : Reachable config s) {acquisition : Acquisition} {p : Nat}
    (hcache : acquisition.cache = some (.memfd p))
    (hunready : ¬ IsReadyGeneration s.broker acquisition) (size base offset : UInt64)
    (key : KeyBuffer) : s.broker.ledger.phase ≠ .published p size base offset key := by
  intro hphase
  have hrep := hs.broker.represents
  rw [hphase] at hrep
  cases hrep with
  | published hready hpq => exact hunready ⟨hready, hpq.cache.trans hcache.symm⟩

theorem Forsaken.broker (h : s.Forsaken) (hs : Reachable config s) {i : Input}
    (htime : s.InTime (.broker i)) (hstep : s.stepBroker i = some t) : t.Forsaken := by
  obtain ⟨hbroker, -, hhistory, -⟩ := stepBroker_eq_some hstep
  have hlog : t.log = s.log ++ s.broker.newEvents (s.broker.step i) := by
    rw [log, hbroker]
    exact hs.broker.log_step i
  intro c acquisition p d hmem hstatus hcache habort hd
  rw [hhistory] at hmem
  rw [hlog] at hd ⊢
  rw [hbroker]
  by_cases hbefore : Event.received c d ∈ s.log
  · obtain ⟨hretired, hnone⟩ := h c acquisition p d hmem hstatus hcache habort hbefore
    obtain ⟨hretired', hnew⟩ := hs.broker.retired_step hretired i
    refine ⟨hretired', ?_⟩
    intro c' m attached horder
    rcases precedes_append_iff.mp horder with hold | ⟨-, hsent⟩ | hin
    · exact hnone c' m attached hold
    · exact hnew c' m attached hsent
    · exact hnew c' m attached hin.right
  · have hnow := (List.mem_append.mp hd).resolve_left hbefore
    obtain ⟨m₀, p', hcache', hgiven⟩ := hs.acquired_given hmem hstatus
    rw [hcache] at hcache'
    cases hcache'
    refine ⟨hs.broker.abort_retires habort hnow hgiven (not_published_of_inTime hs hcache
      (htime c acquisition d hmem hstatus habort hnow)), ?_⟩
    intro c' m attached horder
    have hnothing : ∀ hsent : Event.sent c' m attached ∈ s.broker.newEvents (s.broker.step i),
        Object.memfd p ∉ attached := by
      intro hsent
      rw [hs.broker.abort_gives_nothing habort hnow hsent]
      exact List.not_mem_nil
    rcases precedes_append_iff.mp horder with hold | ⟨hold, -⟩ | hin
    · exact absurd hold.left hbefore
    · exact absurd hold hbefore
    · exact hnothing hin.right

theorem Forsaken.participant (h : s.Forsaken) (hs : Reachable config s) {happened : List Happening}
    (hact : ActStep config s c t happened) : t.Forsaken := by
  have hlog : t.log = s.log := by rw [log, hact.broker]
  intro c' acquisition p d hmem hstatus hcache habort hd
  rw [hlog] at hd ⊢
  rw [hact.broker]
  rw [hact.history] at hmem
  rcases List.mem_append.mp hmem with hold | hnew
  · exact h c' acquisition p d hold hstatus hcache habort hd
  · obtain ⟨rfl, hpc⟩ := hact.acquires hnew hstatus
    exact absurd habort ((hs.unaborted c').taken (by rw [hpc]; rfl) d hd)

/-- The runs in which no `ABORT` of a creator finds its generation ready. -/
abbrev InTimeReachable (config : ConnId → Config) (s : Deployment) : Prop :=
  Execution.Reachable (Execution.Guarded (Step config) InTime) Init s

theorem InTimeReachable.reachable (h : InTimeReachable config s) : Reachable config s := by
  obtain ⟨s₀, labels, h₀, hrun⟩ := h
  exact ⟨s₀, labels, h₀, hrun.unguarded⟩

theorem InTimeReachable.forsaken (h : InTimeReachable config s) : s.Forsaken := by
  refine Execution.Reachable.invariant_with (I := Forsaken) ?_ ?_ h
  · rintro s ⟨maxClients, listenerFd, rfl⟩ c acquisition p d hmem
    cases hmem
  · intro s label t hs hforsaken hstep
    obtain ⟨htime, hstep⟩ := hstep
    cases label with
    | broker i => exact hforsaken.broker (InTimeReachable.reachable hs) htime hstep
    | participant c act =>
        cases hstep
        obtain ⟨happened, hact⟩ := stepParticipant_spec config s c act
        exact hforsaken.participant (InTimeReachable.reachable hs) hact

theorem abandoned_unattachable (h : InTimeReachable config s) : s.AbandonedUnattachable := by
  intro c acquisition cache lock d c' m _ hmem hstatus hcache _ habort _ horder
  obtain ⟨m₀, p, hcache', -⟩ := h.reachable.acquired_given hmem hstatus
  rw [hcache] at hcache'
  cases hcache'
  obtain ⟨-, hnone⟩ := h.forsaken c acquisition p d hmem hstatus hcache habort horder.left
  exact hnone c' m _ horder List.mem_cons_self

/-! ### One creator that gives up in time, and one that does not -/

/-- A run in which the generation is never ready before a step. -/
def runUnready (config : ConnId → Config) (s : Deployment) : List Label → Option Deployment
  | [] => some s
  | label :: rest =>
      if s.broker.generation.state = .ready then none
      else (s.step config label).bind fun t => t.runUnready config rest

theorem run_of_runUnready {labels : List Label} (h : s.runUnready config labels = some t) :
    Execution.Run (Execution.Guarded (Step config) InTime) s labels t := by
  induction labels generalizing s with
  | nil =>
      cases h
      exact .start
  | cons label rest ih =>
      unfold runUnready at h
      split at h
      · cases h
      · next hunready =>
          obtain ⟨u, hstep, hrest⟩ := Option.bind_eq_some_iff.mp h
          refine (ih hrest).head ⟨?_, hstep⟩
          cases label with
          | broker i => exact fun _ _ _ _ _ _ _ hready => hunready hready.1
          | participant c act => trivial

def pageAbort : MessageV1 := brokerMessageInit .abort

/-- Process 0 creates, its `READY` and the reply to it go as told, it sends `ABORT`; the broker
handles what is on its way, and then process 1 asks. -/
def givingUp (offer : List Label) (handled : List Label) : List Label :=
  asking 0 ++ round 0 0 [] (some (4, 0)) ++ round 1 1 pageAcquire.encode none ++ [obtaining 0] ++
    offer ++ [.participant 0 (.sendAbort (.ok ()))] ++ handled ++
    round 1 1 pageAbort.encode none ++ asking 1 ++ round 1 0 [] (some (7, 1)) ++
    round 2 2 pageAcquire.encode none

/-- `READY` cannot be sent. -/
def givingUpInTime : List Label :=
  givingUp [.participant 0 (.startupComplete false 65552 (.error .proto))] []

/-- The reply to `READY` does not come within the second. -/
def givingUpLate : List Label :=
  givingUp [offering 0, .participant 0 (.receivePublication (.failed .again))]
    (round 1 1 pageReady.encode none)

def pageAttach : MessageV1 :=
  { brokerMessageInit .attach with
    mappingSize := 4096, mappingBase := 65536, sharedGlobalsOffset := 16 }

theorem givingUpInTime_history :
    ((start 0 3).runUnready pageConfig givingUpInTime).map (·.history) = some
      [.sent 0 pageAcquire, .acquired 0 (pageAcquisition .allocSuccess true 0),
        .startupComplete 0 65552, .abandoned 0, .sent 0 pageAbort, .sent 1 pageAcquire] := by
  decide +kernel

theorem givingUpLate_state :
    ((start 0 3).run pageConfig givingUpLate).map (fun s => (s.history, s.log)) = some
      ([.sent 0 pageAcquire, .acquired 0 (pageAcquisition .allocSuccess true 0),
        .startupComplete 0 65552, .sent 0 pageReady, .abandoned 0, .sent 0 pageAbort,
        .sent 1 pageAcquire],
      [.accepted 0, .received 0 pageAcquire.encode,
        .sent 0 { brokerMessageInit .create with mappingSize := 4096 } [.memfd 0, .memfd 1],
        .received 0 pageReady.encode, .sent 0 (brokerMessageInit .ack) [],
        .received 0 pageAbort.encode, .sent 0 (brokerMessageInit .ack) [], .accepted 1,
        .received 1 pageAcquire.encode, .sent 1 pageAttach [.memfd 0, .memfd 1]]) := by
  decide +kernel

theorem abandoned_unattachable_in_time : ∃ s,
    (start 0 3).runUnready pageConfig givingUpInTime = some s ∧ .abandoned 0 ∈ s.history ∧
      s.AbandonedUnattachable := by
  obtain ⟨s, hrun, hhistory⟩ := Option.map_eq_some_iff.mp givingUpInTime_history
  refine ⟨s, hrun, ?_, abandoned_unattachable ⟨_, _, ⟨0, 3, rfl⟩, run_of_runUnready hrun⟩⟩
  rw [hhistory]
  decide

theorem abandoned_attachable_too_late :
    ¬ ∀ s, Reachable pageConfig s → s.AbandonedUnattachable := by
  intro hall
  obtain ⟨s, hrun, hstate⟩ := Option.map_eq_some_iff.mp givingUpLate_state
  obtain ⟨hhistory, hlog⟩ := Prod.mk.inj hstate
  refine hall s ((reachable_start 0 3).run hrun) 0 (pageAcquisition .allocSuccess true 0) (.memfd 0)
    (.memfd 1) pageAbort.encode 1 pageAttach ?_ ?_ rfl rfl rfl ⟨pageAbort, brokerReceive_encode rfl, rfl⟩ rfl ?_
  · rw [hhistory]
    decide
  · rw [hhistory]
    decide
  · rw [hlog]
    exact .cons _ (.cons _ (.cons _ (.cons _ (.cons _ (.cons_cons _ (.cons _ (.cons _ (.cons _
      (.cons_cons _ .slnil)))))))))

end Deployment

end Hyperglyph
