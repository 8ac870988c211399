import Hyperglyph.Broker.Permanence
import Hyperglyph.Deployment.Channel

/-! A step of the broker seen from one connection: the step leaves it alone, or it takes one
datagram from it and answers with at most one packet. -/
namespace Hyperglyph

theorem sentTo_append (c : ConnId) (events more : List Event) :
    sentTo c (events ++ more) = sentTo c events ++ sentTo c more := List.filterMap_append

theorem takenFrom_eq_nil {c : ConnId} {events : List Event} :
    takenFrom c events = [] ↔ ∀ d, Event.received c d ∉ events := by
  simp only [List.eq_nil_iff_forall_not_mem, mem_takenFrom]

theorem sentTo_eq_nil {c : ConnId} {events : List Event} :
    sentTo c events = [] ↔ ∀ m attached, Event.sent c m attached ∉ events := by
  rw [List.eq_nil_iff_forall_not_mem]
  constructor
  · exact fun h m attached hmem => h ⟨m, attached⟩ (mem_sentTo.mpr hmem)
  · exact fun h packet hmem => h packet.message packet.attached (mem_sentTo.mp hmem)

@[simp] theorem takenFrom_exchange (c : ConnId) (d : List UInt8) (m : MessageV1)
    (attached : List Object) (sent : Bool) :
    takenFrom c [.received c d, replyEvent c m attached sent] = [d] := by
  cases sent <;> simp [takenFrom, replyEvent]

@[simp] theorem sentTo_exchange (c : ConnId) (d : List UInt8) (m : MessageV1)
    (attached : List Object) (sent : Bool) :
    sentTo c [.received c d, replyEvent c m attached sent] =
      if sent then [⟨m, attached⟩] else [] := by
  cases sent <;> simp [sentTo, replyEvent]

/-- The closing of memfds between a request and its reply. -/
theorem exchange_with_closing {c : ConnId} {d : List UInt8} {m : MessageV1} {sent : Bool}
    {closing : List Event} (hclosing : ∀ e ∈ closing, ∃ n, e = .closed (.memfd n)) :
    takenFrom c (.received c d :: closing ++ [replyEvent c m [] sent]) = [d] ∧
      sentTo c (.received c d :: closing ++ [replyEvent c m [] sent]) =
        if sent then [⟨m, []⟩] else [] := by
  have htaken : takenFrom c closing = [] := by
    rw [takenFrom_eq_nil]
    intro d' hmem
    obtain ⟨n, hn⟩ := hclosing _ hmem
    cases hn
  have hsent : sentTo c closing = [] := by
    rw [sentTo_eq_nil]
    intro m' attached hmem
    obtain ⟨n, hn⟩ := hclosing _ hmem
    cases hn
  have hsplit : Event.received c d :: closing ++ [replyEvent c m [] sent] =
      [.received c d] ++ (closing ++ [replyEvent c m [] sent]) := rfl
  rw [hsplit, takenFrom_append, takenFrom_append, htaken, sentTo_append, sentTo_append, hsent]
  cases sent <;> simp [takenFrom, sentTo, replyEvent]

section Served

variable {ph ph' : Phase} {next next' : Nat} {c c' : ConnId} {events : List Event} {keep : Bool}
  {d : List UInt8} {m : MessageV1}

theorem closing_made (next made : Nat) :
    ∀ e ∈ (List.range made).map fun i => Event.closed (.memfd (next + i)),
      ∃ n, e = .closed (.memfd n) := by
  intro e he
  obtain ⟨i, -, rfl⟩ := List.mem_map.mp he
  exact ⟨next + i, rfl⟩

theorem Phase.closing_leave (ph : Phase) (c : ConnId) :
    ∀ e ∈ ph.leaveEvents c, ∃ n, e = .closed (.memfd n) := by
  intro e he
  obtain ⟨-, p, -, rfl | rfl⟩ := Phase.mem_leaveEvents.mp he
  · exact ⟨p, rfl⟩
  · exact ⟨p + 1, rfl⟩

/-- An activation reads one datagram, unless `recv` failed. -/
theorem Served.reads (h : Served ph next c events ph' next' keep) :
    (events = [] ∧ ph' = ph ∧ keep = false) ∨
      ∃ d, takenFrom c events = [d] ∧ .received c d ∈ events := by
  cases h with
  | unread => exact .inl ⟨rfl, rfl, rfl⟩
  | dropped d => exact .inr ⟨d, by simp [takenFrom], by simp⟩
  | answered d | shared d | created d => exact .inr ⟨d, takenFrom_exchange .., by simp⟩
  | published d m =>
      exact .inr ⟨d, takenFrom_exchange c d (brokerMessageInit .ack) [] true, by simp⟩
  | notCreated d m made =>
      exact .inr ⟨d, (exchange_with_closing (closing_made next made)).1, by simp⟩
  | aborted d m => exact .inr ⟨d, (exchange_with_closing (ph.closing_leave c)).1, by simp⟩

theorem Served.apart (h : Served ph next c events ph' next' keep) (hne : c' ≠ c) :
    takenFrom c' events = [] ∧ sentTo c' events = [] := by
  rw [takenFrom_eq_nil, sentTo_eq_nil]
  constructor
  · exact fun d hmem => hne (h.received hmem)
  · intro m attached hmem
    cases h <;> simp_all

/-- `ACQUIRE` is answered with one packet at most, and one that says `CREATE` hands over the
generation that `c` now builds. -/
theorem Served.acquire_reply (h : Served ph next c events ph' next' keep)
    (hrecv : .received c d ∈ events) (hm : brokerReceive d = .message m)
    (htype : m.type = MessageType.acquire.code) :
    sentTo c events = [] ∨ ∃ packet, sentTo c events = [packet] ∧
      (packet.message.type = MessageType.create.code → ∃ p key,
        packet.attached = [.memfd p, .memfd (p + 1)] ∧
          ph' = .building c p packet.message.mappingSize key) := by
  have hother : ∀ {d' : List UInt8} {m' : MessageV1} {type : MessageType}, d = d' →
      brokerReceive d' = .message m' → m'.type = type.code → type = .acquire := by
    rintro d' m' type rfl hm' htype'
    rw [hm] at hm'
    cases hm'
    exact MessageType.code_injective (htype'.symm.trans htype)
  have hplain : ∀ {reply : MessageType} {sent : Bool}, reply ≠ .create →
      (if sent then [(⟨brokerMessageInit reply, []⟩ : Packet)] else []) = [] ∨
        ∃ packet : Packet, (if sent then [(⟨brokerMessageInit reply, []⟩ : Packet)] else []) = [packet] ∧
          (packet.message.type = MessageType.create.code → ∃ p key,
            packet.attached = [.memfd p, .memfd (p + 1)] ∧
              ph' = .building c p packet.message.mappingSize key) := by
    intro reply sent hreply
    cases sent with
    | false => exact .inl rfl
    | true => exact .inr ⟨_, rfl, fun hcreate => absurd (MessageType.code_injective hcreate) hreply⟩
  cases h with
  | unread => cases hrecv
  | dropped d' hd =>
      obtain rfl : d = d' := by simpa using hrecv
      exact absurd hm (hd m)
  | answered d' m' reply sent keep hm' hreply =>
      rw [sentTo_exchange]
      refine hplain ?_
      cases hreply <;> decide
  | notCreated d' m' made =>
      rw [(exchange_with_closing (closing_made next made)).2]
      exact hplain (by decide)
  | aborted d' m' _ hm' htype' =>
      obtain rfl : d = d' := by simpa using hrecv
      cases hother rfl hm' htype'
  | published d' m' hm' htype' =>
      obtain rfl : d = d' := by simpa using hrecv
      cases hother rfl hm' htype'
  | created d' m' =>
      rw [sentTo_exchange]
      cases keep with
      | false => exact .inl rfl
      | true => exact .inr ⟨_, rfl, fun _ => ⟨next, m'.cacheKey, rfl, rfl⟩⟩
  | shared d' m' p _ hm' _ hserves hpair =>
      rw [sentTo_exchange]
      cases keep with
      | false => exact .inl rfl
      | true =>
          refine .inr ⟨_, rfl, ?_⟩
          cases ph with
          | empty => exact hserves.elim
          | building creator p' size key =>
              cases hpair
              obtain ⟨rfl, -⟩ := hserves
              exact fun _ => ⟨p, key, rfl, rfl⟩
          | published => exact fun hcreate => absurd hcreate.symm create_ne_attach

/-- `READY` of the creator that fits is acknowledged, and the acknowledgement commits. -/
theorem Served.ready_reply {p : Nat} {size : UInt64} {key : KeyBuffer}
    (h : Served (.building c p size key) next c events ph' next' keep)
    (hrecv : .received c d ∈ events) (hm : brokerReceive d = .message m)
    (htype : m.type = MessageType.ready.code)
    (haccepts : (Phase.building c p size key).Accepts c m) :
    (events = [.received c d, .unsent c (brokerMessageInit .ack) []] ∧
        ph' = .building c p size key ∧ keep = false) ∨
      (events = [.received c d, .sent c (brokerMessageInit .ack) []] ∧
        ph' = .published p size m.mappingBase m.sharedGlobalsOffset key ∧ keep = true) := by
  have hsame : ∀ {d' : List UInt8} {m' : MessageV1}, d = d' → brokerReceive d' = .message m' →
      m' = m := by
    rintro d' m' rfl hm'
    rw [hm] at hm'
    exact (Received.message.inj hm').symm
  have hother : ∀ {d' : List UInt8} {m' : MessageV1} {type : MessageType}, d = d' →
      brokerReceive d' = .message m' → m'.type = type.code → type = .ready := by
    intro d' m' type hd hm' htype'
    obtain rfl := hsame hd hm'
    exact MessageType.code_injective (htype'.symm.trans htype)
  cases h with
  | unread => cases hrecv
  | dropped d' hd =>
      obtain rfl : d = d' := by simpa using hrecv
      exact absurd hm (hd m)
  | answered d' m' reply sent keep hm' hreply =>
      obtain rfl : d = d' := by simpa using hrecv
      obtain rfl := hsame rfl hm'
      cases hreply with
      | declined htype' => cases hother rfl hm' htype'
      | rejected _ hno => exact absurd haccepts hno
      | unacknowledged _ _ hsent => exact .inl ⟨by rw [hsent]; rfl, rfl, rfl⟩
      | ignored htype' => cases hother rfl hm' htype'
      | detached htype' => cases hother rfl hm' htype'
      | unknown _ hno => exact absurd htype hno
  | shared d' m' _ _ hm' htype' | created d' m' _ hm' htype' | notCreated d' m' _ _ hm' htype'
  | aborted d' m' _ hm' htype' =>
      obtain rfl : d = d' := by simpa using hrecv
      cases hother rfl hm' htype'
  | published d' m' hm' =>
      obtain rfl : d = d' := by simpa using hrecv
      obtain rfl := hsame rfl hm'
      exact .inr ⟨rfl, rfl, rfl⟩

end Served

namespace Ledger

variable {l l' : Ledger} {events : List Event} {c : ConnId}

/-- What `c` builds stays, or `c` was closed. -/
def Kept (l : Ledger) (c : ConnId) (events : List Event) (l' : Ledger) : Prop :=
  ∀ p size key, l.phase = .building c p size key →
    l'.phase = l.phase ∨ Event.closed (.conn c) ∈ events

/-- A step seen from the connection `c`. -/
inductive View (l : Ledger) (c : ConnId) (events : List Event) (l' : Ledger) : Prop
  | apart : takenFrom c events = [] → sentTo c events = [] → Kept l c events l' →
      View l c events l'
  | active {served : List Event} {ph : Phase} {next : Nat} {keep : Bool} (d : List UInt8) :
      OpenConn l.log c → Served l.phase l.next c served ph next keep → .received c d ∈ served →
      takenFrom c events = [d] → sentTo c events = sentTo c served →
      (∀ e ∈ served, e ∈ events) → (∀ e ∈ events, e ∈ served ∨ ∃ o, e = .closed o) →
      (keep = true ∧ l'.phase = ph ∨ l'.phase = ph.leave c ∧ Event.closed (.conn c) ∈ events) →
      View l c events l'

theorem Upkeep.apart (h : Upkeep l events l') (c : ConnId) :
    takenFrom c events = [] ∧ sentTo c events = [] := by
  rw [takenFrom_eq_nil, sentTo_eq_nil]
  exact ⟨h.handles_nothing c, h.sends_nothing c⟩

theorem Upkeep.kept (h : Upkeep l events l') : Kept l c events l' := by
  intro p size key hphase
  cases h with
  | quiet => exact .inl rfl
  | dissolved hpublished =>
      rw [hphase] at hpublished
      cases hpublished
  | @left c' _ =>
      by_cases heq : c' = c
      · subst heq
        exact .inr (by simp)
      · left
        simp only [Phase.leave, hphase, Phase.creator?, Option.some_inj]
        exact if_neg (Ne.symm heq)

theorem Served.kept {served : List Event} {ph : Phase} {next : Nat} {keep : Bool} {c' : ConnId}
    (h : Served l.phase l.next c' served ph next keep) (hne : c' ≠ c) {p : Nat} {size : UInt64}
    {key : KeyBuffer} (hphase : l.phase = .building c p size key) : ph = l.phase := by
  rw [hphase] at h ⊢
  rcases h.building_cases with heq | ⟨heq, -⟩ | ⟨d, m, heq, -⟩
  · exact heq
  · exact absurd heq.symm hne
  · exact absurd heq.symm hne

theorem Step.view (h : Step l events l') (c : ConnId) : View l c events l' := by
  cases h with
  | upkeep h => exact .apart (h.apart c).1 (h.apart c).2 h.kept
  | @served c' _ ph next hopen hserved =>
      by_cases heq : c' = c
      · subst heq
        rcases hserved.reads with ⟨-, -, hkeep⟩ | ⟨d, htaken, hmem⟩
        · cases hkeep
        · exact .active d hopen hserved hmem htaken rfl (fun _ he => he) (fun _ he => .inl he)
            (.inl ⟨rfl, rfl⟩)
      · obtain ⟨htaken, hsent⟩ := hserved.apart (Ne.symm heq)
        exact .apart htaken hsent fun p size key hphase => .inl (Served.kept hserved heq hphase)
  | @dismissed c' served ph next keep hopen hserved =>
      have hmore : takenFrom c (ph.leaveEvents c' ++ [.closed (.conn c')]) = [] ∧
          sentTo c (ph.leaveEvents c' ++ [.closed (.conn c')]) = [] := by
        rw [takenFrom_eq_nil, sentTo_eq_nil]
        exact ⟨by simp, by simp⟩
      by_cases heq : c' = c
      · subst heq
        have hclosed : Event.closed (.conn c') ∈
            served ++ (ph.leaveEvents c' ++ [.closed (.conn c')]) := by simp
        rcases hserved.reads with ⟨rfl, -, -⟩ | ⟨d, htaken, hmem⟩
        · refine .apart ?_ ?_ fun _ _ _ _ => .inr hclosed
          · rw [takenFrom_append, hmore.1]
            rfl
          · rw [sentTo_append, hmore.2]
            rfl
        · refine .active d hopen hserved hmem ?_ ?_ (fun e he => List.mem_append_left _ he) ?_
            (.inr ⟨rfl, hclosed⟩)
          · rw [takenFrom_append, hmore.1, List.append_nil, htaken]
          · rw [sentTo_append, hmore.2, List.append_nil]
          · intro e he
            refine (List.mem_append.mp he).imp id fun hleave => ?_
            rcases List.mem_append.mp hleave with hclosing | hlast
            · obtain ⟨n, hn⟩ := ph.closing_leave c' e hclosing
              exact ⟨_, hn⟩
            · exact ⟨_, List.mem_singleton.mp hlast⟩
      · obtain ⟨htaken, hsent⟩ := hserved.apart (Ne.symm heq)
        refine .apart ?_ ?_ fun p size key hphase => .inl ?_
        · rw [takenFrom_append, htaken, hmore.1]
          rfl
        · rw [sentTo_append, hsent, hmore.2]
          rfl
        · have hph := Served.kept hserved heq hphase
          simp only [hph, hphase, Phase.leave, Phase.creator?, Option.some_inj]
          exact if_neg (Ne.symm heq)

theorem upkeeps_apart {labels : List (List Event)} (h : Execution.Run Upkeep l labels l')
    (c : ConnId) : takenFrom c labels.flatten = [] ∧ sentTo c labels.flatten = [] ∧
      Kept l c labels.flatten l' := by
  induction h with
  | start => exact ⟨rfl, rfl, fun _ _ _ _ => .inl rfl⟩
  | next _ last ih =>
      obtain ⟨htaken, hsent, hkept⟩ := ih
      rw [List.flatten_append, List.flatten_singleton, takenFrom_append, sentTo_append]
      refine ⟨by rw [htaken, (last.apart c).1]; rfl, by rw [hsent, (last.apart c).2]; rfl, ?_⟩
      intro p size key hphase
      rcases hkept p size key hphase with heq | hclosed
      · rcases last.kept p size key (heq.trans hphase) with heq' | hclosed
        · exact .inl (heq'.trans heq)
        · exact .inr (List.mem_append_right _ hclosed)
      · exact .inr (List.mem_append_left _ hclosed)

theorem upkeeps_view {labels : List (List Event)} (h : Execution.Run Upkeep l labels l')
    (c : ConnId) : View l c labels.flatten l' := by
  obtain ⟨htaken, hsent, hkept⟩ := upkeeps_apart h c
  exact .apart htaken hsent hkept

end Ledger

/-- A step of the main loop seen from the connection `c`. -/
theorem Broker.Reachable.view {b : Broker} (h : Reachable b) (i : Input) (c : ConnId) :
    Ledger.View b.ledger c (b.newEvents (b.step i)) (b.step i).ledger := by
  rcases h.step_ledger i with ⟨labels, hrun⟩ | ⟨events, hstep⟩
  · rw [newEvents_eq (Ledger.upkeeps_run hrun)]
    exact Ledger.upkeeps_view hrun c
  · rw [newEvents_eq (.single hstep), List.flatten_singleton]
    exact hstep.view c

end Hyperglyph
