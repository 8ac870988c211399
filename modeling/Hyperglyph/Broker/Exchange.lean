import Hyperglyph.Library.Monitor
import Hyperglyph.Broker.SingleCreator
import Hyperglyph.Broker.Descriptors

/-! What happens on one connection of the broker. Every request gets one answer before anything
else happens there, nothing is sent unasked, and nothing follows a failed exchange but the close. -/
namespace Hyperglyph

open Monitor

/-- The event is one of the connection `c`. -/
def Event.on (c : ConnId) : Event → Bool
  | .accepted c' | .received c' _ | .sent c' _ _ | .unsent c' _ _ | .closed (.conn c') => c' == c
  | .closed _ | .badClose _ => false

/-- The cache and the lock of one generation. -/
def isPair : List Object → Bool
  | [.memfd cache, .memfd lock] => lock == cache + 1
  | _ => false

/-- `r` with these descriptors is an answer to the request `m`. -/
def replyFits (m r : MessageV1) (attached : List Object) : Bool :=
  if m.type = MessageType.acquire.code then
    if attached = [] then r == brokerMessageInit .decline || r == brokerMessageInit .error
    else
      isPair attached &&
        (r == { brokerMessageInit .create with mappingSize := m.mappingSize } ||
          r == { brokerMessageInit .attach with
            mappingSize := m.mappingSize
            mappingBase := r.mappingBase
            sharedGlobalsOffset := r.sharedGlobalsOffset } &&
          r.mappingBase != 0 && decide (r.sharedGlobalsOffset < m.mappingSize))
  else
    attached == [] &&
      if m.type = MessageType.ready.code then
        r == brokerMessageInit .ack || r == brokerMessageInit .error
      else if m.type = MessageType.abort.code ∨ m.type = MessageType.detach.code then
        r == brokerMessageInit .ack
      else r == brokerMessageInit .error

/-- The connection stays open after an answer to this request went out. -/
def MessageV1.lasts (m : MessageV1) : Bool :=
  m.type == MessageType.acquire.code || m.type == MessageType.ready.code ||
    m.type == MessageType.abort.code

/-- Where a connection stands: `spent` is before its close, `gone` after. -/
inductive Standing
  | unknown
  | idle
  | owed (request : MessageV1)
  | spent
  | gone
  deriving DecidableEq

namespace Standing

/-- The events of a connection, each where it may come. -/
def follow : Standing → Event → Option Standing
  | unknown, .accepted _ => some idle
  | idle, .received _ d =>
      match brokerReceive d with
      | .message m => some (owed m)
      | _ => some spent
  | owed m, .sent _ r attached =>
      if replyFits m r attached then some (if m.lasts then idle else spent) else none
  | owed m, .unsent _ r attached => if replyFits m r attached then some spent else none
  | idle, .closed _ | spent, .closed _ => some gone
  | _, _ => none

/-- The monitor of the connection `c`. -/
def move (c : ConnId) (s : Standing) (e : Event) : Option Standing :=
  if e.on c then s.follow e else some s

variable {c c' : ConnId} {s : Standing} {e : Event} {events : List Event}

theorem move_of_off (h : e.on c = false) : move c s e = some s := by
  simp only [move, h, Bool.false_eq_true, if_false]

theorem reads_off (h : ∀ e ∈ events, e.on c = false) : reads (move c) s events = some s :=
  reads_ignored fun e he => move_of_off (h e he)

/-- Only an event of the connection moves it. -/
theorem on_of_moved {t : Standing} (h : move c s e = some t) (hne : t ≠ s) : e.on c = true := by
  by_contra hoff
  rw [move_of_off (Bool.not_eq_true _ ▸ hoff)] at h
  exact hne (Option.some_inj.mp h).symm

variable {t : Standing} {d : List UInt8} {m r : MessageV1} {attached : List Object} {sent : Bool}

theorem move_received (h : move c s (.received c d) = some t) (hm : brokerReceive d = .message m) :
    t = owed m := by
  have hfollow : s.follow (.received c d) = some t := by simpa [move, Event.on] using h
  cases s <;> simp [follow, hm] at hfollow
  exact hfollow.symm

theorem owed_of_reply (h : move c s (replyEvent c r attached sent) = some t) :
    ∃ m, s = owed m ∧ replyFits m r attached = true := by
  have hfollow : s.follow (replyEvent c r attached sent) = some t := by
    cases sent <;> simpa [move, Event.on, replyEvent] using h
  cases s <;> cases sent <;> simp [follow, replyEvent] at hfollow
  · exact ⟨_, rfl, hfollow.1⟩
  · exact ⟨_, rfl, hfollow.1⟩

theorem request_of_move (h : move c s e = some (owed m)) (hne : s ≠ owed m) :
    ∃ d, e = .received c d ∧ brokerReceive d = .message m := by
  have hon := on_of_moved h hne.symm
  have hfollow : s.follow e = some (owed m) := by simpa [move, hon] using h
  cases e with
  | received c' d =>
      obtain rfl : c' = c := by simpa [Event.on] using hon
      cases s <;> simp [follow] at hfollow
      split at hfollow
      · next m' hm' =>
          cases hfollow
          exact ⟨d, rfl, hm'⟩
      · cases hfollow
  | accepted | closed | badClose | unsent => cases s <;> simp [follow] at hfollow
  | sent =>
      cases s <;> simp [follow] at hfollow
      exact absurd hfollow.2 (by split <;> simp)

/-- While an answer is owed, the answer is the only event there is. -/
theorem reply_of_move (h : move c (owed m) e = some t) (hon : e.on c = true) :
    ∃ r attached sent, e = replyEvent c r attached sent ∧ replyFits m r attached = true ∧
      t ≠ owed m := by
  have hfollow : (owed m).follow e = some t := by simpa [move, hon] using h
  cases e with
  | sent c' r attached =>
      obtain rfl : c' = c := by simpa [Event.on] using hon
      simp only [follow, Option.ite_none_right_eq_some, Option.some_inj] at hfollow
      refine ⟨r, attached, true, rfl, hfollow.1, ?_⟩
      rw [← hfollow.2]
      split <;> simp
  | unsent c' r attached =>
      obtain rfl : c' = c := by simpa [Event.on] using hon
      simp only [follow, Option.ite_none_right_eq_some, Option.some_inj] at hfollow
      refine ⟨r, attached, false, rfl, hfollow.1, ?_⟩
      simp [← hfollow.2]
  | accepted | received | closed | badClose => simp [follow] at hfollow

theorem off_of_waiting (h : move c (owed m) e = some (owed m)) : e.on c = false := by
  by_contra hon
  obtain ⟨-, -, -, -, -, hne⟩ := reply_of_move h (Bool.not_eq_false _ ▸ hon)
  exact hne rfl

/-- A standing without an exchange under way. -/
def Quiescent (s : Standing) : Prop := s = unknown ∨ s = idle ∨ s = gone

/-- The standing tells whether the connection was accepted and whether it was closed. -/
theorem standing_iff (h : reads (move c) unknown events = some s) :
    (s = unknown ↔ Event.accepted c ∉ events) ∧ (s = gone ↔ Event.closed (.conn c) ∈ events) := by
  induction events using List.reverseRecOn generalizing s with
  | nil =>
      cases h
      simp
  | append_singleton events e ih =>
      obtain ⟨u, hbefore, hlast⟩ := reads_append_eq_some.mp h
      rw [reads_singleton] at hlast
      obtain ⟨hunknown, hgone⟩ := ih hbefore
      by_cases hon : e.on c = true
      · simp only [move, hon, if_true] at hlast
        cases e with
        | accepted c' =>
            obtain rfl : c' = c := by simpa [Event.on] using hon
            cases u <;> simp [follow] at hlast
            simp [← hlast, ← hgone]
        | received c' d =>
            cases u <;> simp [follow] at hlast
            split at hlast <;> simp at hlast <;> simp [← hlast, ← hgone, ← hunknown]
        | sent c' r attached =>
            cases u <;> simp [follow] at hlast
            obtain ⟨-, rfl⟩ := hlast
            split <;> simp [← hgone, ← hunknown]
        | unsent c' r attached =>
            cases u <;> simp [follow] at hlast
            simp [← hlast.2, ← hgone, ← hunknown]
        | closed o =>
            cases o with
            | conn c' =>
                obtain rfl : c' = c := by simpa [Event.on] using hon
                cases u <;> simp [follow] at hlast <;> simp [← hlast, ← hunknown]
            | listener | memfd => cases hon
        | badClose => cases hon
      · have hsame : s = u := by
          rw [move_of_off (Bool.not_eq_true _ ▸ hon)] at hlast
          exact (Option.some_inj.mp hlast).symm
        have haccepted : Event.accepted c ≠ e := by
          rintro rfl
          exact hon (by simp [Event.on])
        have hclosed : Event.closed (.conn c) ≠ e := by
          rintro rfl
          exact hon (by simp [Event.on])
        simp [hsame, hunknown, hgone, haccepted, hclosed]

end Standing

section Served

open Standing

variable {c c' : ConnId} {d : List UInt8} {m r : MessageV1} {attached : List Object}
  {sent keep : Bool} {between events : List Event} {ph ph' : Phase} {next next' : Nat}

@[simp] theorem on_received : (Event.received c d).on c' = (c == c') := rfl

@[simp] theorem on_accepted : (Event.accepted c).on c' = (c == c') := rfl

@[simp] theorem on_closed_conn : (Event.closed (.conn c)).on c' = (c == c') := rfl

@[simp] theorem on_closed_memfd (n : Nat) : (Event.closed (.memfd n)).on c = false := rfl

@[simp] theorem on_closed_listener : (Event.closed .listener).on c = false := rfl

@[simp] theorem on_replyEvent : (replyEvent c r attached sent).on c' = (c == c') := by
  cases sent <;> rfl

/-- One exchange on an idle connection. -/
theorem reads_exchange (hd : brokerReceive d = .message m) (hfits : replyFits m r attached = true)
    (hbetween : ∀ e ∈ between, e.on c = false) :
    reads (Standing.move c) idle (.received c d :: (between ++ [replyEvent c r attached sent])) =
      some (if sent && m.lasts then idle else spent) := by
  have htaken : Standing.move c idle (.received c d) = some (owed m) := by
    simp [Standing.move, follow, hd]
  have hanswered : Standing.move c (owed m) (replyEvent c r attached sent) =
      some (if sent && m.lasts then idle else spent) := by
    cases sent <;> simp [Standing.move, replyEvent, Event.on, follow, hfits]
  rw [reads_cons, htaken, Option.bind_some, reads_append, reads_off hbetween, Option.bind_some,
    reads_singleton, hanswered]

theorem Phase.leaveEvents_off (ph : Phase) (c c' : ConnId) :
    ∀ e ∈ ph.leaveEvents c, e.on c' = false := by
  intro e he
  obtain ⟨-, p, -, rfl | rfl⟩ := mem_leaveEvents.mp he <;> rfl

theorem Answered.fits (h : Answered ph c m sent reply keep) :
    replyFits m (brokerMessageInit reply) [] = true ∧ (keep = true → (sent && m.lasts) = true) := by
  cases h with
  | declined htype => simp [replyFits, MessageV1.lasts, htype]
  | rejected htype => simp [replyFits, MessageV1.lasts, htype, MessageType.code]
  | unacknowledged htype => simp [replyFits, htype, MessageType.code]
  | ignored htype => simp [replyFits, MessageV1.lasts, htype, MessageType.code]
  | detached htype => simp [replyFits, htype, MessageType.code]
  | unknown hacquire hready habort hdetach =>
      simp [replyFits, hacquire, hready, habort, hdetach]

/-- The descriptors go out with the metadata the request can use. -/
theorem Phase.Serves.fits {p : Nat} (h : ph.Serves c m) (husable : ph.Usable)
    (htype : m.type = MessageType.acquire.code) :
    replyFits m ph.share [.memfd p, .memfd (p + 1)] = true := by
  cases ph with
  | empty => exact h.elim
  | building creator p' size key =>
      obtain ⟨-, rfl, -⟩ := h
      simp [replyFits, htype, isPair, share]
  | published p' size base offset key =>
      obtain ⟨rfl, -⟩ := h
      simp [replyFits, htype, isPair, share, husable.1, husable.2]

/-- One activation of the handler is one exchange, or the end of the conversation. -/
theorem Served.exchange (h : Served ph next c events ph' next' keep) (husable : ph.Usable) :
    ∃ s, reads (Standing.move c) idle events = some s ∧ (s = idle ∨ s = spent) ∧
      (keep = true → s = idle) := by
  have hexchange : ∀ {d m r attached sent} (between : List Event), brokerReceive d = .message m →
      replyFits m r attached = true → (∀ e ∈ between, e.on c = false) →
      (keep = true → (sent && m.lasts) = true) →
      events = .received c d :: (between ++ [replyEvent c r attached sent]) →
      ∃ s, reads (Standing.move c) idle events = some s ∧ (s = idle ∨ s = spent) ∧
        (keep = true → s = idle) := by
    rintro d m r attached sent between hd hfits hbetween hkeep rfl
    refine ⟨_, reads_exchange hd hfits hbetween, ?_, ?_⟩
    · split
      · exact .inl rfl
      · exact .inr rfl
    · intro hk
      rw [if_pos (hkeep hk)]
  cases h with
  | unread => exact ⟨idle, rfl, .inl rfl, fun _ => rfl⟩
  | dropped d hbad =>
      have hspent : Standing.move c idle (.received c d) = some spent := by
        cases hd : brokerReceive d with
        | message m => exact absurd hd (hbad m)
        | closed | bad => simp [Standing.move, follow, hd]
      exact ⟨spent, by rw [reads_singleton, hspent], .inr rfl, fun h => by cases h⟩
  | answered d m reply sent keep hd hreply =>
      exact hexchange [] hd hreply.fits.1 (by simp) hreply.fits.2 rfl
  | shared d m p sent hd htype hserves hpair =>
      exact hexchange [] hd (hserves.fits husable htype) (by simp)
        (by simp [MessageV1.lasts, htype]) rfl
  | created d m sent hd htype =>
      exact hexchange [] hd (by simp [replyFits, htype, isPair]) (by simp)
        (by simp [MessageV1.lasts, htype]) rfl
  | notCreated d m made sent hd htype =>
      exact hexchange _ hd (by simp [replyFits, htype]) (by simp)
        (by simp [MessageV1.lasts, htype]) rfl
  | published d m hd htype =>
      exact @hexchange d m _ _ true [] hd (by simp [replyFits, htype, MessageType.code]) (by simp)
        (by simp [MessageV1.lasts, htype]) rfl
  | aborted d m sent hd htype =>
      exact hexchange (ph.leaveEvents c) hd (by simp [replyFits, htype, MessageType.code])
        (ph.leaveEvents_off c c) (by simp [MessageV1.lasts, htype]) rfl

/-- Handling a message of `c` is nothing to the other connections. -/
theorem Served.off (h : Served ph next c events ph' next' keep) (hother : c ≠ c') :
    ∀ e ∈ events, e.on c' = false := by
  cases h with
  | unread => simp
  | dropped | answered | shared | created => simp [hother]
  | published => simp [hother, Event.on]
  | notCreated => simp +contextual [or_imp, hother]
  | aborted =>
      intro e he
      rcases List.mem_append.mp he with he | he
      · rcases List.mem_cons.mp he with rfl | he
        · simp [hother]
        · exact ph.leaveEvents_off c c' e he
      · rw [List.mem_singleton.mp he]
        simp [hother]

end Served

namespace Ledger

open Standing

variable {l l' : Ledger} {events : List Event} {c c' : ConnId} {s : Standing}

/-- The closing of a connection, with what it leaves behind. -/
theorem reads_closing (ph : Phase) (hs : s = idle ∨ s = spent) :
    reads (move c) s (ph.leaveEvents c ++ [.closed (.conn c)]) = some gone := by
  rw [reads_append, reads_off (ph.leaveEvents_off c c), Option.bind_some, reads_singleton]
  rcases hs with rfl | rfl <;> simp [move, follow]

theorem closing_off (ph : Phase) (hother : c' ≠ c) :
    ∀ e ∈ ph.leaveEvents c' ++ [.closed (.conn c')], e.on c = false := by
  intro e he
  rcases List.mem_append.mp he with he | he
  · exact ph.leaveEvents_off c' c e he
  · rw [List.mem_singleton.mp he]
    simp [hother]

/-- Every move takes each connection from one resting place to another. -/
theorem Step.follows (h : Step l events l') (husable : l.phase.Usable)
    (hs : reads (move c) unknown l.log = some s) (hrest : Quiescent s) :
    ∃ t, reads (move c) s events = some t ∧ Quiescent t := by
  obtain ⟨hunknown, hgone⟩ := standing_iff hs
  have hopened : OpenConn l.log c → s = idle := by
    rintro ⟨haccepted, hclosed⟩
    rcases hrest with h | h | h
    · exact absurd haccepted (hunknown.mp h)
    · exact h
    · exact absurd (hgone.mp h) hclosed
  cases h with
  | upkeep hupkeep =>
      cases hupkeep with
      | quiet hquiet =>
          rcases hquiet with rfl | rfl | ⟨c', hnew, rfl | rfl⟩
          · exact ⟨s, rfl, hrest⟩
          · exact ⟨s, reads_off (by simp), hrest⟩
          · by_cases hc : c' = c
            · subst hc
              exact ⟨idle, by simp [hunknown.mpr hnew, move, follow], .inr (.inl rfl)⟩
            · exact ⟨s, reads_off (by simp [hc]), hrest⟩
          · by_cases hc : c' = c
            · subst hc
              exact ⟨gone, by simp [reads_cons, hunknown.mpr hnew, move, follow], .inr (.inr rfl)⟩
            · exact ⟨s, reads_off (by simp [hc]), hrest⟩
      | @left c' hopen =>
          by_cases hc : c' = c
          · subst hc
            exact ⟨gone, reads_closing _ (.inl (hopened hopen)), .inr (.inr rfl)⟩
          · exact ⟨s, reads_off (closing_off _ hc), hrest⟩
      | dissolved => exact ⟨s, reads_off (by simp), hrest⟩
  | @served c' _ _ _ hopen hserved =>
      by_cases hc : c' = c
      · subst hc
        obtain ⟨t, hreads, -, hkeep⟩ := hserved.exchange husable
        rw [hopened hopen]
        exact ⟨t, hreads, .inr (.inl (hkeep rfl))⟩
      · exact ⟨s, reads_off (hserved.off hc), hrest⟩
  | @dismissed c' _ _ _ _ hopen hserved =>
      by_cases hc : c' = c
      · subst hc
        obtain ⟨t, hreads, ht, -⟩ := hserved.exchange husable
        refine ⟨gone, ?_, .inr (.inr rfl)⟩
        rw [hopened hopen, reads_append, hreads, Option.bind_some, reads_closing _ ht]
      · refine ⟨s, reads_off ?_, hrest⟩
        intro e he
        rcases List.mem_append.mp he with he | he
        · exact hserved.off hc e he
        · exact closing_off _ hc e he

/-- Between two moves the monitor of every connection has come to rest. -/
theorem Reachable.follows (h : Reachable l) (c : ConnId) :
    ∃ s, reads (move c) unknown l.log = some s ∧ Quiescent s := by
  refine Execution.Reachable.invariant_with
    (I := fun l => ∃ s, reads (move c) unknown l.log = some s ∧ Quiescent s) ?_ ?_ h
  · rintro l rfl
    exact ⟨unknown, rfl, .inl rfl⟩
  · rintro l events l' hl ⟨s, hs, hrest⟩ hstep
    obtain ⟨t, ht, hrest'⟩ := hstep.follows (Reachable.custody hl).usable hs hrest
    refine ⟨t, ?_, hrest'⟩
    rw [hstep.log_eq, reads_append, hs, Option.bind_some, ht]

end Ledger

namespace Broker

open Standing

variable {b : Broker} {c : ConnId}

/-- An accepted connection that was not closed is a client. -/
theorem Reachable.client_of_open (h : Reachable b) (hopen : OpenConn b.kernel.log c) :
    ∃ client ∈ b.clients, b.kernel.fds.get client.fd = some (.conn c) := by
  have howned := h.owned
  have hmem : Object.conn c ∈ b.kernel.opened := Kernel.mem_opened.mpr (.inr (.inl ⟨c, rfl, hopen.1⟩))
  obtain ⟨fd, hfd⟩ := howned.accounted.balanced.open_of_not_closed hmem
    (mt Kernel.mem_closedObjects.mp hopen.2)
  obtain ⟨client, hclient, rfl⟩ := howned.conn_held fd c hfd
  exact ⟨client, hclient, hfd⟩

/-- What the log says about the connection `c`. -/
structure Conversed (b : Broker) (c : ConnId) : Prop where
  /-- The events of `c` come in the order of the protocol, and no exchange is left half done. -/
  followed : ∃ s, reads (move c) unknown b.kernel.log = some s ∧
    (s = unknown ∧ Event.accepted c ∉ b.kernel.log ∨
      s = idle ∧ (∃ client ∈ b.clients, b.kernel.fds.get client.fd = some (.conn c)) ∨
      s = gone ∧ Event.closed (.conn c) ∈ b.kernel.log)
  /-- The next event of `c` after a request is its answer. -/
  answered : ∀ before d m after, b.kernel.log = before ++ .received c d :: after →
    brokerReceive d = .message m →
    ∃ quiet r attached sent rest, after = quiet ++ replyEvent c r attached sent :: rest ∧
      (∀ e ∈ quiet, e.on c = false) ∧ replyFits m r attached = true
  /-- The last event of `c` before an answer is the request it answers. -/
  asked : ∀ before r attached sent after,
    b.kernel.log = before ++ replyEvent c r attached sent :: after →
    ∃ earlier d m quiet, before = earlier ++ .received c d :: quiet ∧
      (∀ e ∈ quiet, e.on c = false) ∧ brokerReceive d = .message m ∧ replyFits m r attached = true

theorem Reachable.answered (h : Reachable b) {before after : List Event} {d : List UInt8}
    {m : MessageV1} (hlog : b.kernel.log = before ++ .received c d :: after)
    (hm : brokerReceive d = .message m) :
    ∃ quiet r attached sent rest, after = quiet ++ replyEvent c r attached sent :: rest ∧
      (∀ e ∈ quiet, e.on c = false) ∧ replyFits m r attached = true := by
  obtain ⟨s, hs, hrest⟩ := h.refines.follows c
  change reads (move c) unknown b.kernel.log = some s at hs
  rw [hlog, reads_append_eq_some] at hs
  obtain ⟨u, -, hs⟩ := hs
  obtain ⟨v, htaken, hs⟩ := reads_cons_eq_some.mp hs
  obtain rfl := move_received htaken hm
  have hdone : s ≠ owed m := by
    rcases hrest with rfl | rfl | rfl <;> simp
  obtain ⟨quiet, e, rest, w, rfl, hquiet, hmove, hw⟩ := reads_leaves hs hdone
  obtain ⟨r, attached, sent, rfl, hfits, -⟩ := reply_of_move hmove (on_of_moved hmove hw)
  exact ⟨quiet, r, attached, sent, rest, rfl, fun x hx => off_of_waiting (hquiet x hx), hfits⟩

theorem Reachable.asked (h : Reachable b) {before after : List Event} {r : MessageV1}
    {attached : List Object} {sent : Bool}
    (hlog : b.kernel.log = before ++ replyEvent c r attached sent :: after) :
    ∃ earlier d m quiet, before = earlier ++ .received c d :: quiet ∧
      (∀ e ∈ quiet, e.on c = false) ∧ brokerReceive d = .message m ∧
        replyFits m r attached = true := by
  obtain ⟨s, hs, -⟩ := h.refines.follows c
  change reads (move c) unknown b.kernel.log = some s at hs
  rw [hlog, reads_append_eq_some] at hs
  obtain ⟨u, hbefore, hs⟩ := hs
  obtain ⟨v, hmove, -⟩ := reads_cons_eq_some.mp hs
  obtain ⟨m, rfl, hfits⟩ := owed_of_reply hmove
  obtain ⟨earlier, e, quiet, w, rfl, -, htaken, hw, hquiet⟩ := reads_enters hbefore (by simp)
  obtain ⟨d, rfl, hm⟩ := request_of_move htaken hw
  exact ⟨earlier, d, m, quiet, rfl, fun x hx => off_of_waiting (hquiet x hx), hm, hfits⟩

theorem conversation_kept (h : Reachable b) (c : ConnId) : b.Conversed c where
  followed := by
    obtain ⟨s, hs, hrest⟩ := h.refines.follows c
    obtain ⟨hunknown, hgone⟩ := standing_iff hs
    refine ⟨s, hs, ?_⟩
    rcases hrest with rfl | rfl | rfl
    · exact .inl ⟨rfl, hunknown.mp rfl⟩
    · refine .inr (.inl ⟨rfl, h.client_of_open ⟨?_, ?_⟩⟩)
      · by_contra haccepted
        cases hunknown.mpr haccepted
      · intro hclosed
        cases hgone.mpr hclosed
    · exact .inr (.inr ⟨rfl, hgone.mp rfl⟩)
  answered := fun _ _ _ _ => h.answered
  asked := fun _ _ _ _ _ => h.asked

/-- The creator under construction sent `DETACH`. -/
def detached : Broker :=
  [.dispatch (answering []),
    .accept acceptNone,
    .head true (.ready [.clear, readable]),
    .dispatch (answering (brokerMessageInit .detach).encode)].foldl step underConstruction

theorem conversation_kept_detached :
    detached.kernel.log = [.accepted 0, .received 0 pageRequest.encode,
        .sent 0 { brokerMessageInit .create with mappingSize := 4096 } [.memfd 0, .memfd 1],
        .received 0 (brokerMessageInit .detach).encode, .sent 0 (brokerMessageInit .ack) [],
        .closed (.memfd 0), .closed (.memfd 1), .closed (.conn 0)] ∧
      detached.Conversed 0 :=
  ⟨by decide +kernel, conversation_kept (((reachable_start 0 3).foldl _).foldl _) 0⟩

end Broker

end Hyperglyph
