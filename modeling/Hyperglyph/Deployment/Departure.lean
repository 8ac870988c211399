import Hyperglyph.Deployment.Conversation
import Hyperglyph.Deployment.Correspondence

/-! A process that is gone leaves nothing behind. Each time `poll` reports its connection, the
broker reads one of the messages that are left or closes the connection, and with it goes the
generation it did not publish. -/
namespace Hyperglyph

theorem Revents.eq_clear {r : Revents} (hpollin : r.pollin = false) (hfailed : r.failed = false) :
    r = .clear := by
  obtain ⟨pollin, pollerr, pollhup, pollnval⟩ := r
  simp_all [Revents.failed, Revents.clear]

/-- A client that is kept was heard. -/
theorem Served.heard {ph ph' : Phase} {next next' : Nat} {c : ConnId} {events : List Event}
    (h : Served ph next c events ph' next' true) :
    ∃ d m, Event.received c d ∈ events ∧ brokerReceive d = .message m := by
  cases h with
  | answered d m _ _ _ hd | shared d m _ _ hd | created d m _ hd | notCreated d m _ _ hd
  | published d m hd | aborted d m _ hd => exact ⟨d, m, by simp, hd⟩

namespace Broker

variable {b b' : Broker} {c : ConnId} {i : Input} {index : Nat} {client : ClientConnection}
  {events : Revents} {a : Answers}

/-- A message of `c` is taken, or the connection is closed. -/
def Attends (b b' : Broker) (c : ConnId) : Prop :=
  Event.closed (.conn c) ∈ b'.kernel.log ∨
    ∃ d m, Event.received c d ∈ b.newEvents b' ∧ brokerReceive d = .message m

/-- The loop has `c` still before it, and `poll` reported something of it. -/
inductive Expects (b : Broker) (c : ConnId) : Prop
  | intro {j index : Nat} {fds : List PollFd} {client : ClientConnection} :
      b.pc = .dispatch j fds → b.Seated c index client → index < j →
      (fds[index + 1]?).elim .clear (·.revents) ≠ .clear → Expects b c

theorem Reachable.closeClient_attends (h : Reachable b) (hseat : b.Seated c index client) :
    b.Attends (b.closeClient index) c := by
  obtain ⟨ph, hrep⟩ := h.inv.represents h.tidied
  obtain ⟨hlog, -⟩ := closeClient_refines hrep h.tidied hseat.slot hseat.conn
  left
  rw [show (b.closeClient index).kernel.log = _ from hlog]
  simp

/-- The turn of a client that `poll` reported. -/
theorem Reachable.turn_attends (h : Reachable b) (hseat : b.Seated c index client)
    (hevents : events ≠ .clear) : b.Attends (b.dispatchClient index events a) c := by
  obtain ⟨ph, hrep⟩ := h.inv.represents h.tidied
  obtain ⟨c', hc', hmsg⟩ := h.inv.served hseat.slot a
  obtain rfl : c' = c := by
    rw [hseat.conn] at hc'
    cases hc'
    rfl
  obtain ⟨said, ph', hlog, hrep', hserved⟩ := hmsg.refines hrep h.tidied hseat.conn
  have hdropped : b.Attends ((b.serveClient index client a).1.closeClient index) c' := by
    have hslot : (b.serveClient index client a).1.clients[index]? =
        some (brokerHandleClientMessage b.kernel client b.generation a).2.1 :=
      List.getElem?_set_self (List.getElem?_eq_some_iff.mp hseat.slot).1
    have hconn : (b.serveClient index client a).1.kernel.fds.get
        (brokerHandleClientMessage b.kernel client b.generation a).2.1.fd = some (.conn c') := by
      rw [hmsg.served_fd]
      exact hmsg.keeps_open hseat.conn (by simp)
    obtain ⟨hlog', -⟩ := closeClient_refines hrep' (hmsg.tidy h.tidied) hslot hconn
    left
    rw [show ((b.serveClient index client a).1.closeClient index).kernel.log = _ from hlog']
    simp
  simp only [dispatchClient, hseat.slot, if_neg hevents, examineClient]
  split
  · simpa using h.closeClient_attends hseat
  · split
    · split
      · next hkept =>
          have hkeep : (brokerHandleClientMessage b.kernel client b.generation a).2.2.2 = true :=
            (Bool.and_eq_true_iff.mp hkept).1
          rw [hkeep] at hserved
          right
          obtain ⟨d, m, hd, hm⟩ := hserved.heard
          have hnew : b.newEvents (b.serveClient index client a).1 = said := newEvents_of_log hlog
          exact ⟨d, m, hnew ▸ hd, hm⟩
      · exact hdropped
    · next hpollin =>
        have hfailed : events.failed = true := by
          by_contra hfine
          exact hevents (Revents.eq_clear (Bool.not_eq_true _ ▸ hpollin) (Bool.not_eq_true _ ▸ hfine))
        simpa [hfailed] using h.closeClient_attends hseat

theorem Expects.of_same (h : b.Expects c) (hpc : b'.pc = b.pc) (hclients : b'.clients = b.clients)
    (hkernel : b'.kernel = b.kernel) : b'.Expects c := by
  obtain ⟨hdispatch, hseat, hbelow, hreported⟩ := h
  exact ⟨hpc.trans hdispatch, ⟨hclients ▸ hseat.slot, hkernel ▸ hseat.conn⟩, hbelow, hreported⟩

/-- The loop keeps in mind what `poll` reported until it comes to it. -/
theorem Reachable.expects_step (h : Reachable b) (hexpects : b.Expects c) (i : Input) :
    (b.step i).Expects c ∨ b.Attends (b.step i) c := by
  obtain @⟨j, index, fds, client, hpc, hseat, hbelow, hreported⟩ := hexpects
  have hidle : b.step i = b → (b.step i).Expects c ∨ b.Attends (b.step i) c := by
    intro hsame
    rw [hsame]
    exact .inl ⟨hpc, hseat, hbelow, hreported⟩
  cases i with
  | signal => exact .inl (Expects.of_same ⟨hpc, hseat, hbelow, hreported⟩ rfl rfl rfl)
  | head | accept | leave => exact hidle (by simp only [step, hpc])
  | dispatch a =>
      obtain ⟨k, rfl⟩ : ∃ k, j = k + 1 := ⟨j - 1, by omega⟩
      have hstep : b.step (.dispatch a) =
          { b.dispatchClient k ((fds[k + 1]?).elim .clear (·.revents)) a with
            pc := .dispatch k fds } := by
        simp only [step, hpc]
      by_cases heq : k = index
      · right
        subst heq
        rw [hstep]
        exact h.turn_attends hseat hreported
      · left
        obtain ⟨index', hslot', hplace⟩ : ∃ index', (b.step (.dispatch a)).clients[index']? =
            some client ∧ (index' = index ∨ k ≤ index ∧ k ≤ index') := by
          rw [hstep]
          cases hother : b.clients[k]? with
          | none =>
              refine ⟨index, ?_, .inl rfl⟩
              simp only [dispatchClient, hother]
              exact hseat.slot
          | some other => exact h.inv.dispatchClient_slot hseat.slot hother heq _ a
        obtain rfl : index' = index := hplace.resolve_right fun hbehind => by omega
        obtain ⟨c', hc'⟩ :=
          (h.step_reachable (.dispatch a)).inv.clients_open client (List.mem_of_getElem? hslot')
        have hsettled := h.inv.step_settles (.dispatch a) client.fd _ _ hseat.conn hc'
        refine ⟨(congrArg Broker.pc hstep).trans rfl, ⟨hslot', ?_⟩, by omega, hreported⟩
        exact hc'.trans (congrArg some hsettled)

/-- Whether the loop has `c` before it with something reported. -/
def expects (b : Broker) (c : ConnId) : Bool :=
  match b.pc with
  | .dispatch j fds =>
      b.clients.zipIdx.any fun (client, index) =>
        decide (b.kernel.fds.get client.fd = some (.conn c)) && decide (index < j) &&
          decide ((fds[index + 1]?).elim .clear (·.revents) ≠ .clear)
  | _ => false

theorem Expects.of_expects (h : b.expects c = true) : b.Expects c := by
  unfold expects at h
  split at h
  · next j fds hpc =>
      obtain ⟨⟨client, index⟩, hmem, hall⟩ := List.any_eq_true.mp h
      simp only [Bool.and_eq_true, decide_eq_true_eq] at hall
      obtain ⟨⟨hconn, hbelow⟩, hreported⟩ := hall
      exact ⟨hpc, ⟨List.mem_zipIdx_iff_getElem?.mp hmem, hconn⟩, hbelow, hreported⟩
  · cases h

/-- Whoever builds the generation is connected. -/
theorem Reachable.building_open (h : Reachable b) {p : Nat} {size : UInt64} {key : KeyBuffer}
    (hphase : b.ledger.phase = .building c p size key) : Event.closed (.conn c) ∉ b.kernel.log := by
  obtain ⟨ph, hrep⟩ := h.inv.represents h.tidied
  rw [ledger_of_represents hrep] at hphase
  obtain rfl : ph = .building c p size key := hphase
  cases hrep with
  | building _ _ hc => exact (h.tidied.conn_open _ c hc).2

end Broker

namespace Deployment

variable {config : ConnId → Config} {s t u : Deployment} {c : ConnId} {label : Label}
  {labels : List Label} {n : Nat}

/-- How many messages of `c` the broker has still to read. -/
abbrev unheard (s : Deployment) (c : ConnId) : Nat := (s.channels c).toBroker.length

/-- How often `poll` reports something of `c` in a run. -/
def reports (config : ConnId → Config) (c : ConnId) : Deployment → List Label → Nat
  | _, [] => 0
  | s, label :: rest =>
      match s.step config label with
      | none => 0
      | some t =>
          (decide (s.broker.pc = .top) && t.broker.expects c).toNat + reports config c t rest

/-- The process `c` is gone, and after `n` reports so many messages are left. -/
inductive Dwindles (s : Deployment) (c : ConnId) (n : Nat) (t : Deployment) : Prop
  | left : Event.closed (.conn c) ∈ t.log → Dwindles s c n t
  | rested : n + t.unheard c ≤ s.unheard c → Dwindles s c n t
  | expected : n + t.unheard c ≤ s.unheard c + 1 → t.broker.Expects c → Dwindles s c n t

theorem Reachable.log_step (h : Reachable config s) (hstep : Step config s label t) :
    t.log = s.log ++ s.broker.newEvents t.broker := by
  cases label with
  | broker i =>
      rw [log, log, (stepBroker_eq_some hstep).1]
      exact h.broker.log_step i
  | participant c' act =>
      cases hstep
      rw [Broker.newEvents, show (s.stepParticipant config c' act).broker = s.broker from rfl,
        List.drop_length, List.append_nil]
      rfl

/-- Nobody speaks for a process that is gone. -/
theorem ended_step (hended : (s.participants c).pc = .ended) (hstep : Step config s label t) :
    (t.participants c).pc = .ended ∧ t.unheard c ≤ s.unheard c := by
  cases label with
  | broker i =>
      obtain ⟨-, hparticipants, -, habsorb⟩ := stepBroker_eq_some hstep
      rw [hparticipants]
      exact ⟨hended, (absorbed habsorb c).toBroker.suffix.length_le⟩
  | participant c' act =>
      cases hstep
      obtain ⟨happened, hact⟩ := stepParticipant_spec config s c' act
      by_cases heq : c = c'
      · subst heq
        obtain ⟨hended', hsame⟩ := hact.acted.mute hended
        exact ⟨hended', (congrArg List.length hsame).le⟩
      · rw [(hact.others c heq).2, unheard, (hact.others c heq).1]
        exact ⟨hended, le_rfl⟩

/-- Where the broker attends to `c`, it reads one of the messages or closes the connection. -/
theorem Reachable.attended (h : Reachable config s) {i : Input}
    (hstep : Step config s (.broker i) t) (hattends : s.broker.Attends t.broker c) :
    Event.closed (.conn c) ∈ t.log ∨ t.unheard c < s.unheard c := by
  obtain ⟨hbroker, -, -, habsorb⟩ := stepBroker_eq_some hstep
  refine hattends.imp_right ?_
  rintro ⟨d, m, hreceived, hm⟩
  rw [hbroker] at hreceived
  have hne : d ≠ [] := by
    rintro rfl
    exact brokerReceive_nil hm
  have htaken : d ∈ (takenFrom c (s.broker.newEvents (s.broker.step i))).filter (· ≠ []) :=
    List.mem_filter.mpr ⟨mem_takenFrom.mpr hreceived, decide_eq_true hne⟩
  have hsplit := congrArg List.length
    ((absorbed habsorb c).toBroker.split (h.delivered.nonempty c))
  have hpos := List.length_pos_of_mem htaken
  rw [List.length_append] at hsplit
  show (t.channels c).toBroker.length < (s.channels c).toBroker.length
  omega

theorem Dwindles.step (h : Dwindles s c n t) (ht : Reachable config t)
    (hended : (t.participants c).pc = .ended) (hstep : Step config t label u) :
    Dwindles s c (n + (decide (t.broker.pc = .top) && u.broker.expects c).toNat) u := by
  obtain ⟨-, hle⟩ := ended_step hended hstep
  cases h with
  | left hclosed =>
      refine .left ?_
      rw [ht.log_step hstep]
      exact List.mem_append_left _ hclosed
  | rested hcount =>
      cases hreport : decide (t.broker.pc = .top) && u.broker.expects c with
      | false =>
          refine .rested ?_
          simp only [Bool.toNat_false]
          omega
      | true =>
          refine .expected ?_ (.of_expects (Bool.and_eq_true_iff.mp hreport).2)
          simp only [Bool.toNat_true]
          omega
  | expected hcount hexpects =>
      have hbusy : t.broker.pc ≠ .top := by
        obtain ⟨hpc, -⟩ := hexpects
        rw [hpc]
        exact Pc.noConfusion
      simp only [hbusy, decide_false, Bool.false_and, Bool.toNat_false, Nat.add_zero]
      cases label with
      | broker i =>
          have hbroker := (stepBroker_eq_some hstep).1
          rcases ht.broker.expects_step hexpects i with hstill | hattends
          · exact .expected (by omega) (hbroker ▸ hstill)
          · rcases ht.attended hstep (hbroker ▸ hattends) with hclosed | hless
            · exact .left hclosed
            · exact .rested (by omega)
      | participant c' act =>
          cases hstep
          exact .expected (by omega) hexpects

theorem dwindles_run (h : Dwindles s c n t) (ht : Reachable config t)
    (hended : (t.participants c).pc = .ended) (hrun : t.run config labels = some u) :
    Dwindles s c (n + reports config c t labels) u := by
  induction labels generalizing t n with
  | nil =>
      cases hrun
      exact h
  | cons label rest ih =>
      obtain ⟨t', hstep, hrest⟩ := Option.bind_eq_some_iff.mp hrun
      have hnext := ih (h.step ht hended hstep) (ht.extend (.single hstep))
        (ended_step hended hstep).1 hrest
      rw [reports, hstep, ← Nat.add_assoc]
      exact hnext

/-- What becomes of the connection of a process that is gone. -/
structure Departs (config : ConnId → Config) (s : Deployment) (c : ConnId) (labels : List Label)
    (t : Deployment) : Prop where
  few : s.unheard c ≤ 4
  /-- After one report for each message that is left, and one more, the connection is closed. -/
  leaves : s.unheard c < reports config c s labels → t.broker.pc = .top →
    Event.closed (.conn c) ∈ t.log
  /-- With the connection its place among the clients and its unpublished generation are gone. -/
  discarded : Event.closed (.conn c) ∈ t.log →
    (∀ client ∈ t.broker.clients, t.broker.kernel.fds.get client.fd ≠ some (.conn c)) ∧
      ∀ p size key, t.broker.ledger.phase ≠ .building c p size key

theorem ended_process_leaves (hs : Reachable config s) (hended : (s.participants c).pc = .ended)
    (hrun : s.run config labels = some t) : Departs config s c labels t where
  few := by
    obtain ⟨types, htypes, hasked⟩ := hs.delivered.ordered c
    have hlen := congrArg List.length htypes
    have hqueued := congrArg List.length (hs.delivered.queued c)
    have hfour := (hasked.trans (ParticipantPc.asked_sublist_ended _)).length_le
    rw [List.length_map, List.length_map] at hlen
    rw [List.length_map, List.length_append] at hqueued
    have hall : ParticipantPc.ended.asked.length = 4 := rfl
    show (s.channels c).toBroker.length ≤ 4
    omega
  leaves := by
    intro hreports htop
    have hdwindles := dwindles_run (.rested (Nat.zero_add _).le) hs hended hrun
    cases hdwindles with
    | left hclosed => exact hclosed
    | rested hcount => omega
    | expected _ hexpects =>
        obtain ⟨hpc, -⟩ := hexpects
        rw [htop] at hpc
        cases hpc
  discarded := by
    intro hclosed
    have ht := hs.run hrun
    refine ⟨?_, fun p size key hphase => ht.broker.building_open hphase hclosed⟩
    intro client _ hconn
    exact (ht.broker.tidied.conn_open _ c hconn).2 hclosed

/-- The creator crashes before it publishes; the broker finds its stream at the end. -/
def crashing : List Label :=
  asking 0 ++ round 0 0 [] (some (4, 0)) ++ round 1 1 pageAcquire.encode none ++
    [.participant 0 .crash]

theorem crashing_state :
    (((start 0 3).run pageConfig crashing).bind fun s =>
      (s.run pageConfig (round 1 1 [] none)).map fun t =>
        ((s.participants 0).pc, s.broker.generation.state,
          reports pageConfig 0 s (round 1 1 [] none), t.broker.generation.state)) =
      some (.ended, .initializing, 1, .empty) := by
  decide +kernel

theorem ended_process_leaves_crashed : ∃ s t,
    (start 0 3).run pageConfig crashing = some s ∧ s.broker.generation.state = .initializing ∧
      t.broker.generation.state = .empty ∧
      Departs pageConfig s 0 (round 1 1 [] none) t := by
  obtain ⟨s, hrun, hrest⟩ := Option.bind_eq_some_iff.mp crashing_state
  obtain ⟨t, hround, hstate⟩ := Option.map_eq_some_iff.mp hrest
  simp only [Prod.mk.injEq] at hstate
  obtain ⟨hended, hbuilding, -, hempty⟩ := hstate
  exact ⟨s, t, hrun, hbuilding, hempty,
    ended_process_leaves ((reachable_start 0 3).run hrun) hended hround⟩

end Deployment

end Hyperglyph
