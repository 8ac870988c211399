import Hyperglyph.Library.History
import Hyperglyph.Broker.Refinement

/-! Where generations come from and where their memfds go: what the broker's log says about
every cache/lock pair, under reuse of descriptor numbers. A pair is named by its two objects,
a connection by its accept. -/
namespace Hyperglyph

open History Octets

/-! ### Statements about the log -/

/-- The connection `c` sent the well-framed message `r`, and the broker took it. -/
def Requested (log : List Event) (c : ConnId) (r : MessageV1) : Prop :=
  ∃ d, Event.received c d ∈ log ∧ brokerReceive d = .message r

/-- `c` was sent the pair `p`, `q` in the message `m`. -/
def Given (log : List Event) (c : ConnId) (m : MessageV1) (p q : Nat) : Prop :=
  Event.sent c m [.memfd p, .memfd q] ∈ log

/-- `c` was answered `CREATE` with the pair `p`, `q`. -/
def Created (log : List Event) (c : ConnId) (p q : Nat) : Prop :=
  ∃ m, Given log c m p q ∧ m.type = MessageType.create.code

/-- `c` was answered `CREATE` with the pair and then sent the message `r`. -/
def CreatedThenSent (log : List Event) (c : ConnId) (p q : Nat) (r : MessageV1) : Prop :=
  ∃ m d, Precedes log (.sent c m [.memfd p, .memfd q]) (.received c d) ∧
    m.type = MessageType.create.code ∧ brokerReceive d = .message r

/-- As `CreatedThenSent`, and only then was `c'` sent the pair in `m'`. -/
def CreatedSentGiven (log : List Event) (c : ConnId) (p q : Nat) (r : MessageV1) (c' : ConnId)
    (m' : MessageV1) : Prop :=
  ∃ m d, InOrder log (.sent c m [.memfd p, .memfd q]) (.received c d)
      (.sent c' m' [.memfd p, .memfd q]) ∧
    m.type = MessageType.create.code ∧ brokerReceive d = .message r

section Log

variable {log more : List Event} {c c' : ConnId} {p q : Nat} {m r : MessageV1}

theorem Requested.extend (h : Requested log c r) (more : List Event) :
    Requested (log ++ more) c r := by
  obtain ⟨d, hmem, hd⟩ := h
  exact ⟨d, List.mem_append_left _ hmem, hd⟩

theorem Given.extend (h : Given log c m p q) (more : List Event) : Given (log ++ more) c m p q :=
  List.mem_append_left _ h

theorem Created.extend (h : Created log c p q) (more : List Event) :
    Created (log ++ more) c p q := by
  obtain ⟨m, hgiven, hm⟩ := h
  exact ⟨m, hgiven.extend more, hm⟩

theorem CreatedThenSent.extend (h : CreatedThenSent log c p q r) (more : List Event) :
    CreatedThenSent (log ++ more) c p q r := by
  obtain ⟨m, d, horder, hrest⟩ := h
  exact ⟨m, d, horder.extend more, hrest⟩

theorem CreatedSentGiven.extend (h : CreatedSentGiven log c p q r c' m) (more : List Event) :
    CreatedSentGiven (log ++ more) c p q r c' m := by
  obtain ⟨m₀, d, horder, hrest⟩ := h
  exact ⟨m₀, d, horder.extend more, hrest⟩

theorem CreatedSentGiven.created (h : CreatedSentGiven log c p q r c' m) : Created log c p q := by
  obtain ⟨m₀, d, horder, hm₀, -⟩ := h
  exact ⟨m₀, horder.precedes.left, hm₀⟩

theorem CreatedSentGiven.requested (h : CreatedSentGiven log c p q r c' m) : Requested log c r := by
  obtain ⟨m₀, d, horder, -, hd⟩ := h
  exact ⟨d, horder.mid, hd⟩

theorem CreatedThenSent.given (h : CreatedThenSent log c p q r)
    (hnew : Event.sent c' m [.memfd p, .memfd q] ∈ more) :
    CreatedSentGiven (log ++ more) c p q r c' m := by
  obtain ⟨m₀, d, horder, hrest⟩ := h
  exact ⟨m₀, d, horder.inOrder hnew, hrest⟩

/-- The events with which the broker hands out nothing. -/
def Bare (more : List Event) : Prop :=
  ∀ c m attached, Event.sent c m attached ∈ more ∨ Event.unsent c m attached ∈ more →
    attached = []

theorem bare_reply (c : ConnId) (d : List UInt8) (m : MessageV1) (sent : Bool) :
    Bare [.received c d, replyEvent c m [] sent] := by
  intro c' m' attached h
  unfold replyEvent at h
  cases sent <;> simp_all

theorem Given.of_bare (h : Given (log ++ more) c m p q) (hbare : Bare more) :
    Given log c m p q := by
  rcases List.mem_append.mp h with hold | hnew
  · exact hold
  · exact absurd (hbare _ _ _ (.inl hnew)) (by simp)

end Log

/-! ### What the whole log satisfies -/

/-- The request an answered `ATTACH` stands for agrees with the creator's. -/
structure Agrees (log : List Event) (c : ConnId) (p q : Nat) (c' : ConnId) (m : MessageV1) :
    Prop where
  creator : ∃ acquire ready request,
    Requested log c acquire ∧ acquire.type = MessageType.acquire.code ∧
    CreatedSentGiven log c p q ready c' m ∧ ready.type = MessageType.ready.code ∧
    Requested log c' request ∧ request.type = MessageType.acquire.code ∧
    m.mappingSize = acquire.mappingSize ∧ m.mappingSize = ready.mappingSize ∧
    m.mappingBase = ready.mappingBase ∧ m.sharedGlobalsOffset = ready.sharedGlobalsOffset ∧
    request.mappingSize = acquire.mappingSize ∧
    strcmpEq request.cacheKey.bytes acquire.cacheKey.bytes = true

theorem Agrees.extend {log : List Event} {c c' : ConnId} {p q : Nat} {m : MessageV1}
    (h : Agrees log c p q c' m) (more : List Event) : Agrees (log ++ more) c p q c' m := by
  obtain ⟨acquire, ready, request, ha, hta, hr, htr, hq, hrest⟩ := h.creator
  exact ⟨acquire, ready, request, ha.extend more, hta, hr.extend more, htr, hq.extend more, hrest⟩

structure Records (log : List Event) (next : Nat) : Prop where
  /-- A message carries no descriptors or one pair of consecutively made memfds. -/
  pairs : ∀ c m attached, Event.sent c m attached ∈ log ∨ Event.unsent c m attached ∈ log →
    attached = [] ∨ ∃ p, attached = [.memfd p, .memfd (p + 1)] ∧ p + 1 < next
  kinds : ∀ c m p q, Given log c m p q →
    m.type = MessageType.create.code ∨ m.type = MessageType.attach.code
  creator_unique : ∀ c c' p q, Created log c p q → Created log c' p q → c = c'
  attached_after : ∀ c' m p q, Given log c' m p q → m.type = MessageType.attach.code →
    ∃ c, Agrees log c p q c' m

theorem create_ne_attach : MessageType.create.code ≠ MessageType.attach.code := by decide

theorem records_nil : Records [] 0 where
  pairs := by simp
  kinds := by simp [Given]
  creator_unique := by simp [Created, Given]
  attached_after := by simp [Given]

/-- Events that hand out nothing keep the log in order. -/
theorem Records.bare {log more : List Event} {next next' : Nat} (h : Records log next)
    (hbare : Bare more) (hnext : next ≤ next') : Records (log ++ more) next' where
  pairs := by
    intro c m attached hmem
    simp only [List.mem_append] at hmem
    rcases hmem with (hold | hnew) | (hold | hnew)
    · obtain hnil | ⟨p, hp, hlt⟩ := h.pairs c m attached (.inl hold)
      · exact .inl hnil
      · exact .inr ⟨p, hp, by omega⟩
    · exact .inl (hbare c m attached (.inl hnew))
    · obtain hnil | ⟨p, hp, hlt⟩ := h.pairs c m attached (.inr hold)
      · exact .inl hnil
      · exact .inr ⟨p, hp, by omega⟩
    · exact .inl (hbare c m attached (.inr hnew))
  kinds := fun c m p q hgiven => h.kinds c m p q (hgiven.of_bare hbare)
  creator_unique := by
    rintro c c' p q ⟨m, hm, htype⟩ ⟨m', hm', htype'⟩
    exact h.creator_unique c c' p q ⟨m, hm.of_bare hbare, htype⟩ ⟨m', hm'.of_bare hbare, htype'⟩
  attached_after := by
    intro c' m p q hgiven htype
    obtain ⟨c, hagrees⟩ := h.attached_after c' m p q (hgiven.of_bare hbare) htype
    exact ⟨c, hagrees.extend more⟩

/-- A reply that carries the pair `p`, `p + 1`. -/
theorem Records.share {log : List Event} {next next' : Nat} {c : ConnId} {d : List UInt8}
    {m : MessageV1} {p : Nat} {sent : Bool} (h : Records log next) (hnext : next ≤ next')
    (hp : p + 1 < next')
    (hkind : m.type = MessageType.create.code ∨ m.type = MessageType.attach.code)
    (hcreate : m.type = MessageType.create.code → ∀ c', Created log c' p (p + 1) → c' = c)
    (hattach : m.type = MessageType.attach.code → ∃ creator, Agrees
      (log ++ [.received c d, .sent c m [.memfd p, .memfd (p + 1)]]) creator p (p + 1) c m) :
    Records (log ++ [.received c d, replyEvent c m [.memfd p, .memfd (p + 1)] sent]) next' := by
  cases sent with
  | false =>
      have hplain : Records (log ++ [.received c d]) next' := h.bare (by intro _ _ _; simp) hnext
      have hgiven : ∀ {c' m' a b},
          Given (log ++ [.received c d, .unsent c m [.memfd p, .memfd (p + 1)]]) c' m' a b →
          Given (log ++ [.received c d]) c' m' a b := by
        intro c' m' a b hg
        simpa [Given] using hg
      refine ⟨?_, ?_, ?_, ?_⟩
      · intro c' m' attached hmem
        simp only [replyEvent, Bool.false_eq_true, if_false, List.mem_append, List.mem_cons,
          reduceCtorEq, List.not_mem_nil, or_false, false_or, Event.unsent.injEq] at hmem
        rcases hmem with hold | hold | ⟨-, -, rfl⟩
        · exact hplain.pairs c' m' attached (.inl (List.mem_append_left _ hold))
        · exact hplain.pairs c' m' attached (.inr (List.mem_append_left _ hold))
        · exact .inr ⟨p, rfl, hp⟩
      · exact fun c' m' a b hg => hplain.kinds c' m' a b (hgiven hg)
      · rintro c₁ c₂ a b ⟨m₁, h₁, t₁⟩ ⟨m₂, h₂, t₂⟩
        exact hplain.creator_unique c₁ c₂ a b ⟨m₁, hgiven h₁, t₁⟩ ⟨m₂, hgiven h₂, t₂⟩
      · intro c' m' a b hg htype
        obtain ⟨creator, hagrees⟩ := hplain.attached_after c' m' a b (hgiven hg) htype
        refine ⟨creator, ?_⟩
        simpa [replyEvent] using
          hagrees.extend [Event.unsent c m [.memfd p, .memfd (p + 1)]]
  | true =>
      have hgiven : ∀ {c' m' a b},
          Given (log ++ [.received c d, .sent c m [.memfd p, .memfd (p + 1)]]) c' m' a b →
          Given log c' m' a b ∨ (c' = c ∧ m' = m ∧ a = p ∧ b = p + 1) := by
        intro c' m' a b hg
        simpa [Given] using hg
      refine ⟨?_, ?_, ?_, ?_⟩
      · intro c' m' attached hmem
        simp only [replyEvent, if_true, List.mem_append, List.mem_cons, reduceCtorEq,
          List.not_mem_nil, or_false, false_or, Event.sent.injEq] at hmem
        rcases hmem with (hold | ⟨-, -, rfl⟩) | hold
        · obtain hnil | ⟨a, ha, hlt⟩ := h.pairs c' m' attached (.inl hold)
          · exact .inl hnil
          · exact .inr ⟨a, ha, by omega⟩
        · exact .inr ⟨p, rfl, hp⟩
        · obtain hnil | ⟨a, ha, hlt⟩ := h.pairs c' m' attached (.inr hold)
          · exact .inl hnil
          · exact .inr ⟨a, ha, by omega⟩
      · intro c' m' a b hg
        rcases hgiven hg with hold | ⟨rfl, rfl, rfl, rfl⟩
        · exact h.kinds c' m' a b hold
        · exact hkind
      · rintro c₁ c₂ a b ⟨m₁, h₁, t₁⟩ ⟨m₂, h₂, t₂⟩
        rcases hgiven h₁ with old₁ | ⟨rfl, rfl, rfl, rfl⟩
        · rcases hgiven h₂ with old₂ | ⟨rfl, rfl, rfl, rfl⟩
          · exact h.creator_unique c₁ c₂ a b ⟨m₁, old₁, t₁⟩ ⟨m₂, old₂, t₂⟩
          · exact hcreate t₂ c₁ ⟨m₁, old₁, t₁⟩
        · rcases hgiven h₂ with old₂ | ⟨rfl, rfl, -, -⟩
          · exact (hcreate t₁ c₂ ⟨m₂, old₂, t₂⟩).symm
          · rfl
      · intro c' m' a b hg htype
        rcases hgiven hg with hold | ⟨rfl, rfl, rfl, rfl⟩
        · obtain ⟨creator, hagrees⟩ := h.attached_after c' m' a b hold htype
          exact ⟨creator, hagrees.extend _⟩
        · exact hattach htype

/-! ### What the log says of the generation in hand -/

/-- `c` asked for a generation of this size and key, in a request the broker accepts. -/
def Asked (log : List Event) (c : ConnId) (size : UInt64) (key : KeyBuffer) : Prop :=
  ∃ acquire, Requested log c acquire ∧ acquire.type = MessageType.acquire.code ∧
    requestInvalid acquire = false ∧ acquire.mappingSize = size ∧ acquire.cacheKey = key

def Documented (log : List Event) : Phase → Prop
  | .empty => True
  | .building c p size key =>
      OpenConn log c ∧ Created log c p (p + 1) ∧ Asked log c size key
  | .published p size base offset key =>
      ∃ c ready, Asked log c size key ∧ CreatedThenSent log c p (p + 1) ready ∧
        ready.type = MessageType.ready.code ∧ ready.mappingSize = size ∧
        ready.mappingBase = base ∧ ready.sharedGlobalsOffset = offset ∧ base ≠ 0 ∧ offset < size

theorem Asked.extend {log : List Event} {c : ConnId} {size : UInt64} {key : KeyBuffer}
    (h : Asked log c size key) (more : List Event) : Asked (log ++ more) c size key := by
  obtain ⟨acquire, hrequested, hrest⟩ := h
  exact ⟨acquire, hrequested.extend more, hrest⟩

theorem Documented.extend {log more : List Event} {ph : Phase} (h : Documented log ph)
    (hmore : ∀ c, ph.creator? = some c → Event.closed (.conn c) ∉ more) :
    Documented (log ++ more) ph := by
  cases ph with
  | empty => trivial
  | building c p size key =>
      obtain ⟨hopen, hcreated, hasked⟩ := h
      exact ⟨hopen.append (hmore c rfl), hcreated.extend more, hasked.extend more⟩
  | published p size base offset key =>
      obtain ⟨c, ready, hasked, hready, hrest⟩ := h
      exact ⟨c, ready, hasked.extend more, hready.extend more, hrest⟩

/-- The invariant of the ledger. -/
structure Ledger.Inv (l : Ledger) : Prop where
  records : Records l.log l.next
  held : ∀ p, l.phase.pair? = some p → p + 1 < l.next
  documented : Documented l.log l.phase

section Served

variable {ph ph' : Phase} {next next' : Nat} {c : ConnId} {events log : List Event} {keep : Bool}

theorem Served.next_le (h : Served ph next c events ph' next' keep) : next ≤ next' := by
  cases h <;> omega

/-- No activation closes a connection. -/
theorem Served.closes_no_conn (h : Served ph next c events ph' next' keep) (c' : ConnId) :
    Event.closed (.conn c') ∉ events := by
  cases h <;> simp

theorem Served.held (h : Served ph next c events ph' next' keep)
    (hheld : ∀ p, ph.pair? = some p → p + 1 < next) (p : Nat) (hp : ph'.pair? = some p) :
    p + 1 < next' := by
  cases h with
  | unread | dropped | answered | shared => exact hheld p hp
  | created =>
      cases hp
      exact Nat.lt_succ_self _
  | notCreated | aborted => cases hp
  | published d m _ _ haccepts =>
      cases ph with
      | empty | published => exact haccepts.elim
      | building creator p' size key => exact hheld p hp

/-- One activation keeps the log in order. -/
theorem Served.records (h : Served ph next c events ph' next' keep) (hrecords : Records log next)
    (hheld : ∀ p, ph.pair? = some p → p + 1 < next) (hdoc : Documented log ph) :
    Records (log ++ events) next' := by
  have hbare : ∀ {m : MessageV1} {sent : Bool} {before : List Event},
      (∀ c' m' attached, Event.sent c' m' attached ∉ before ∧ Event.unsent c' m' attached ∉ before) →
      Bare (before ++ [replyEvent c m [] sent]) := by
    intro m sent before hbefore c' m' attached hmem
    have hno := hbefore c' m' attached
    cases sent <;> simp_all [replyEvent]
  cases h with
  | unread => rwa [List.append_nil]
  | dropped d _ => exact hrecords.bare (by intro _ _ _; simp) le_rfl
  | answered d m reply sent keep _ _ => exact hrecords.bare (bare_reply c d _ sent) le_rfl
  | published d m _ _ _ =>
      exact hrecords.bare (bare_reply c d (brokerMessageInit .ack) true) le_rfl
  | notCreated d m made sent _ _ _ =>
      exact hrecords.bare (hbare (by simp)) (Nat.le_add_right _ _)
  | aborted d m sent _ _ _ => exact hrecords.bare (hbare (by simp)) le_rfl
  | created d m sent _ _ _ _ =>
      refine hrecords.share (by omega) (by omega) (.inl rfl) ?_ ?_
      · rintro _ c' ⟨m', hgiven, _⟩
        obtain hnil | ⟨p, hp, hlt⟩ := hrecords.pairs c' m' _ (.inl hgiven)
        · cases hnil
        · cases hp
          omega
      · exact fun hattach => absurd hattach create_ne_attach
  | shared d m p sent hm htype hserves hpair =>
      cases ph with
      | empty => exact hserves.elim
      | building creator p' size key =>
          cases hpair
          obtain ⟨rfl, -⟩ := hserves
          obtain ⟨-, hcreated, -⟩ := hdoc
          refine hrecords.share le_rfl (hheld _ rfl) (.inl rfl) ?_ ?_
          · exact fun _ c' hc' => hrecords.creator_unique _ _ _ _ hc' hcreated
          · exact fun hattach => absurd hattach create_ne_attach
      | published p' size base offset key =>
          cases hpair
          obtain ⟨creator, ready, ⟨acquire, hacquire, hatype, -, rfl, rfl⟩, hready, hrtype, hsize,
            hbase, hoffset, -, -⟩ := hdoc
          refine hrecords.share le_rfl (hheld _ rfl) (.inr rfl)
            (fun hcreate => absurd hcreate create_ne_attach.symm) fun _ => ⟨creator, ?_⟩
          refine ⟨⟨acquire, ready, m, hacquire.extend _, hatype, hready.given (by simp), hrtype,
            ⟨d, by simp, hm⟩, htype, rfl, hsize.symm, hbase.symm, hoffset.symm, hserves.1,
            hserves.2.2⟩⟩

/-- After an activation the phase is documented, unless its `CREATE` did not go out; then
the creator is about to be closed. -/
theorem Served.documented (h : Served ph next c events ph' next' keep) (hdoc : Documented log ph)
    (hopen : OpenConn log c) :
    Documented (log ++ events) ph' ∨ (ph'.creator? = some c ∧ keep = false) := by
  have hclosed := h.closes_no_conn
  cases h with
  | unread | dropped | answered | shared => exact .inl (hdoc.extend fun c' _ => hclosed c')
  | notCreated | aborted => exact .inl trivial
  | created d m sent hm htype _ hvalid =>
      cases keep with
      | false => exact .inr ⟨rfl, rfl⟩
      | true =>
          have hcreated : Created (log ++ [.received c d, .sent c
              { brokerMessageInit .create with mappingSize := m.mappingSize }
              [.memfd next, .memfd (next + 1)]]) c next (next + 1) :=
            ⟨_, List.mem_append_right _ (List.mem_cons_of_mem _ List.mem_cons_self), rfl⟩
          exact .inl ⟨hopen.append (hclosed c), hcreated, m, ⟨d, by simp, hm⟩, htype, hvalid, rfl, rfl⟩
  | published d m hm htype haccepts =>
      cases ph with
      | empty | published => exact haccepts.elim
      | building creator p size key =>
          obtain ⟨rfl, hsize, hbase, hoffset⟩ := haccepts
          obtain ⟨-, ⟨m₀, hgiven, hm₀⟩, hasked⟩ := hdoc
          refine .inl ⟨creator, m, hasked.extend _, ⟨m₀, d, ?_, hm₀, hm⟩, htype, hsize, rfl, rfl,
            hbase, hsize ▸ hoffset⟩
          exact precedes_of_mem hgiven (by simp)

end Served

theorem Phase.leaveEvents_bare (ph : Phase) (c : ConnId) :
    Bare (ph.leaveEvents c ++ [.closed (.conn c)]) := by
  intro c' m attached
  simp

theorem Phase.leave_pair {ph : Phase} {c : ConnId} {p : Nat}
    (h : (ph.leave c).pair? = some p) : ph.pair? = some p ∧ ph.creator? ≠ some c := by
  unfold Phase.leave at h
  split at h
  · cases h
  · next hother => exact ⟨h, hother⟩

theorem Phase.leaveEvents_conn {ph : Phase} {c c' : ConnId}
    (h : Event.closed (.conn c') ∈ ph.leaveEvents c ++ [.closed (.conn c)]) : c' = c := by
  simpa using h

/-- What `c` leaves behind is documented if everything but `c`'s own generation was. -/
theorem Documented.leave {log : List Event} {ph : Phase} {c : ConnId}
    (h : Documented log ph ∨ ph.creator? = some c) (more : List Event)
    (hmore : ∀ c', Event.closed (.conn c') ∈ more → c' = c) :
    Documented (log ++ more) (ph.leave c) := by
  unfold Phase.leave
  split
  · trivial
  · next hother =>
      refine (h.resolve_right hother).extend ?_
      intro c' hc' hmem
      exact hother (hmore c' hmem ▸ hc')

namespace Ledger

theorem inv_start : Inv start :=
  ⟨records_nil, fun _ hp => absurd hp Phase.pair?_empty, trivial⟩

theorem Upkeep.bare {l l' : Ledger} {events : List Event} (h : Upkeep l events l') : Bare events := by
  cases h with
  | quiet hquiet =>
      intro c m attached
      rcases hquiet with rfl | rfl | ⟨c', _, rfl | rfl⟩ <;> simp
  | left => exact l.phase.leaveEvents_bare _
  | dissolved => intro c m attached; simp

theorem Inv.upkeep {l l' : Ledger} {events : List Event} (h : l.Inv) (hstep : Upkeep l events l') :
    l'.Inv := by
  have hbare := hstep.bare
  cases hstep with
  | quiet hquiet =>
      refine ⟨h.records.bare hbare le_rfl, h.held, h.documented.extend ?_⟩
      intro c hc hmem
      obtain ⟨phase, next, log⟩ := l
      cases phase with
      | empty | published => cases hc
      | building creator p size key =>
          cases hc
          obtain ⟨⟨haccepted, -⟩, -⟩ := h.documented
          rcases hquiet with rfl | rfl | ⟨c', hfresh, rfl | rfl⟩
          · cases hmem
          · simp at hmem
          · simp at hmem
          · obtain rfl : c = c' := by simpa using hmem
            exact hfresh haccepted
  | @left c hopen =>
      refine ⟨h.records.bare hbare le_rfl, ?_, ?_⟩
      · exact fun p hp => h.held p (Phase.leave_pair hp).1
      · exact Documented.leave (.inl h.documented) _ fun c' hc' => Phase.leaveEvents_conn hc'
  | dissolved => exact ⟨h.records.bare hbare le_rfl, fun _ hp => absurd hp Phase.pair?_empty, trivial⟩

theorem Inv.step {l l' : Ledger} {events : List Event} (h : l.Inv) (hstep : Step l events l') :
    l'.Inv := by
  cases hstep with
  | upkeep hstep => exact h.upkeep hstep
  | served hopen hserved =>
      refine ⟨hserved.records h.records h.held h.documented, hserved.held h.held, ?_⟩
      exact (hserved.documented h.documented hopen).resolve_right (fun hno => absurd hno.2 (by decide))
  | @dismissed c events ph next keep hopen hserved =>
      have hrecords := hserved.records h.records h.held h.documented
      have hdoc := (hserved.documented h.documented hopen).imp id And.left
      refine ⟨?_, ?_, ?_⟩
      · rw [← List.append_assoc]
        exact hrecords.bare (ph.leaveEvents_bare c) le_rfl
      · exact fun p hp => hserved.held h.held p (Phase.leave_pair hp).1
      · rw [← List.append_assoc]
        exact Documented.leave hdoc _ fun c' hc' => Phase.leaveEvents_conn hc'

theorem Reachable.inv {l : Ledger} (h : Reachable l) : l.Inv :=
  by
  refine Execution.Reachable.invariant (I := Inv) ?_ Inv.step h
  rintro l rfl
  exact inv_start

end Ledger

end Hyperglyph
