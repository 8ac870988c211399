import Hyperglyph.Broker.Dispatch
import Hyperglyph.Broker.Handover
import Hyperglyph.Broker.Permanence
import Hyperglyph.Deployment.Channel

/-! What a connection hears from a broker whose generation is ready. It depends on the generation,
on what the connection says and on which replies go out: the number of its descriptor does not
matter, and neither do the other connections. -/
namespace Hyperglyph

/-- The generation of a ready broker, without its descriptors. -/
@[ext]
structure Offer where
  pair : Nat
  size : UInt64
  base : UInt64
  offset : UInt64
  key : KeyBuffer
  deriving DecidableEq

instance (m : MessageV1) (size : UInt64) (key : KeyBuffer) : Decidable (Asks m size key) :=
  inferInstanceAs (Decidable (_ ∧ _ ∧ _))

namespace Offer

def phase (x : Offer) : Phase := .published x.pair x.size x.base x.offset x.key

/-- The events of one message and whether the connection outlives them. -/
def exchange (x : Offer) (c : ConnId) (d : List UInt8) (sent : Bool) : List Event × Bool :=
  match brokerReceive d with
  | .message m =>
      if m.type = MessageType.acquire.code then
        if Asks m x.size x.key then
          ([.received c d, replyEvent c x.phase.share [.memfd x.pair, .memfd (x.pair + 1)] sent], sent)
        else ([.received c d, replyEvent c (brokerMessageInit .decline) [] sent], sent)
      else if m.type = MessageType.ready.code then
        ([.received c d, replyEvent c (brokerMessageInit .error) [] sent], sent)
      else if m.type = MessageType.abort.code then
        ([.received c d, replyEvent c (brokerMessageInit .ack) [] sent], sent)
      else if m.type = MessageType.detach.code then
        ([.received c d, replyEvent c (brokerMessageInit .ack) [] sent], false)
      else ([.received c d, replyEvent c (brokerMessageInit .error) [] sent], false)
  | _ => ([.received c d], false)

/-- What passes between the broker and `c` when `c` says `script` and its replies go out as `sends`
tells, up to the close that ends it. -/
def conversation (x : Offer) (c : ConnId) (sends : Nat → Bool) : Nat → List (List UInt8) → List Event
  | _, [] => []
  | i, d :: script =>
      let (events, keep) := x.exchange c d (sends i)
      events ++ if keep then x.conversation c sends (i + 1) script else [.closed (.conn c)]

/-- The connection is open when all of `script` has been handled. -/
def outlives (x : Offer) (c : ConnId) (sends : Nat → Bool) : Nat → List (List UInt8) → Bool
  | _, [] => true
  | i, d :: script => (x.exchange c d (sends i)).2 && x.outlives c sends (i + 1) script

variable {x : Offer} {c : ConnId} {d : List UInt8} {sent : Bool} {sends : Nat → Bool} {i : Nat}
  {script more : List (List UInt8)}

theorem exchange_dropped (h : ∀ m, brokerReceive d ≠ .message m) :
    x.exchange c d sent = ([.received c d], false) := by
  unfold exchange
  split
  · next m hm => exact absurd hm (h m)
  · rfl

theorem conversation_of_outlives (h : x.outlives c sends i script = true) :
    x.conversation c sends i (script ++ more) =
      x.conversation c sends i script ++ x.conversation c sends (i + script.length) more := by
  induction script generalizing i with
  | nil => simp [conversation]
  | cons d script ih =>
      obtain ⟨hkeep, hrest⟩ := Bool.and_eq_true_iff.mp h
      simp only [List.cons_append, conversation, hkeep, if_true, List.append_assoc, List.length_cons]
      rw [ih hrest, show i + 1 + script.length = i + (script.length + 1) by omega]

/-- Nothing is said on a closed connection. -/
theorem conversation_of_not_outlives (h : x.outlives c sends i script = false) :
    x.conversation c sends i (script ++ more) = x.conversation c sends i script := by
  induction script generalizing i with
  | nil => cases h
  | cons d script ih =>
      simp only [List.cons_append, conversation]
      cases hkeep : (x.exchange c d (sends i)).2 with
      | false => rfl
      | true =>
          rw [outlives, hkeep, Bool.true_and] at h
          rw [if_pos rfl, if_pos rfl, ih h]

theorem conversation_extends :
    x.conversation c sends i script <+: x.conversation c sends i (script ++ more) := by
  cases h : x.outlives c sends i script with
  | true =>
      rw [conversation_of_outlives h]
      exact List.prefix_append _ _
  | false =>
      refine ⟨[], ?_⟩
      rw [List.append_nil, conversation_of_not_outlives h]

theorem outlives_append : x.outlives c sends i (script ++ more) =
    (x.outlives c sends i script && x.outlives c sends (i + script.length) more) := by
  induction script generalizing i with
  | nil => simp [outlives]
  | cons d script ih =>
      rw [List.cons_append, outlives, outlives, ih, Bool.and_assoc, List.length_cons,
        show i + 1 + script.length = i + (script.length + 1) by omega]

end Offer

/-! ### One message -/

/-- The generation record stands for this offer. -/
structure Offered (fds : DescriptorTable Object) (g : Generation) (x : Offer) : Prop where
  state : g.state = .ready
  held : Holds fds g x.pair (x.pair + 1)
  size : g.mappingSize = x.size
  base : g.mappingBase = x.base
  offset : g.sharedGlobalsOffset = x.offset
  key : g.cacheKey = x.key

theorem Represents.offered {fds : DescriptorTable Object} {g : Generation} {x : Offer}
    (h : Represents fds g x.phase) : Offered fds g x := by
  unfold Offer.phase at h
  generalize hp : x.pair = p at h
  generalize hsize : x.size = size at h
  generalize hbase : x.base = base at h
  generalize hoffset : x.offset = offset at h
  generalize hkey : x.key = key at h
  cases h with
  | published hready hholds =>
      subst hp
      exact ⟨hready, hholds, hsize.symm, hbase.symm, hoffset.symm, hkey.symm⟩

/-- A generation makes one offer. -/
theorem Offered.unique {fds : DescriptorTable Object} {g : Generation} {x y : Offer}
    (hx : Offered fds g x) (hy : Offered fds g y) : x = y := by
  ext1
  · have hcache := hx.held.cache.symm.trans hy.held.cache
    exact Object.memfd.inj (Option.some_inj.mp hcache)
  · exact hx.size.symm.trans hy.size
  · exact hx.base.symm.trans hy.base
  · exact hx.offset.symm.trans hy.offset
  · exact hx.key.symm.trans hy.key

section Message

variable {k : Kernel} {client : ClientConnection} {c : ConnId} {g : Generation} {a : Answers}
  {r : Kernel × ClientConnection × Generation × Bool} {x : Offer}

theorem Offered.share (h : Offered k.fds g x) : shareResponse g = x.phase.share := by
  simp [shareResponse, Offer.phase, Phase.share, h.state, h.size, h.base, h.offset]

theorem Offered.matches (h : Offered k.fds g x) {m : MessageV1} :
    generationMatches g m = true ↔ Asks m x.size x.key := by
  rw [generationMatches_iff, h.size, h.key]

/-- A plain reply of a ready broker is the one of the exchange. -/
theorem PlainReply.exchange (h : Offered k.fds g x) {fd : Fd} {m : MessageV1} {d : List UInt8}
    {sent keep : Bool} {reply : MessageType} (hm : brokerReceive d = .message m)
    (hreply : PlainReply g fd m sent reply keep) :
    x.exchange c d sent = ([.received c d, replyEvent c (brokerMessageInit reply) [] sent], keep) := by
  unfold Offer.exchange
  rw [hm]
  dsimp only
  cases hreply with
  | declined htype _ hrefused =>
      have hasks : ¬ Asks m x.size x.key := by
        rw [← h.matches]
        rcases hrefused with hmismatch | ⟨hstate, -⟩
        · simp [hmismatch]
        · rw [h.state] at hstate
          cases hstate
      rw [if_pos htype, if_neg hasks]
  | rejected htype _ =>
      rw [htype]
      rfl
  | unacknowledged htype haccepted _ =>
      have hstate := (readyRefused_eq_false haccepted).1
      rw [h.state] at hstate
      cases hstate
  | ignored htype _ =>
      rw [htype]
      rfl
  | detached htype =>
      rw [htype]
      rfl
  | unknown hacquire hready habort hdetach =>
      rw [if_neg hacquire, if_neg hready, if_neg habort, if_neg hdetach]

/-- What handling a message of `c` comes to while the generation is ready. -/
structure Handled (k : Kernel) (client : ClientConnection) (c : ConnId) (g : Generation)
    (x : Offer) (a : Answers) (r : Kernel × ClientConnection × Generation × Bool) : Prop where
  generation : r.2.2.1 = g
  fd : r.2.1.fd = client.fd
  fds : r.1.fds = k.fds
  failed : a.recv = .error → r.1.log = k.log ∧ r.2.2.2 = false
  taken : ∀ d, a.recv = .datagram d →
    r.1.log = k.log ++ (x.exchange c d a.sent).1 ∧ r.2.2.2 = (x.exchange c d a.sent).2

theorem HandleMessage.handled (h : Offered k.fds g x) (hmsg : HandleMessage k client c g a r) :
    Handled k client c g x a r := by
  have hready := h.state
  refine ⟨hmsg.ready_kept hready, hmsg.served_fd, ?_, ?_, ?_⟩
  · cases hmsg with
    | failed | dropped | plain | shared | published => rfl
    | created _ _ _ _ _ _ _ hg | notCreated _ _ _ _ _ _ hg =>
        rw [hg] at hready
        cases hready
    | aborted _ _ _ _ _ _ _ hstate =>
        rw [hstate] at hready
        cases hready
  · intro herror
    cases hmsg with
    | failed => exact ⟨rfl, rfl⟩
    | dropped d hrecv | plain d _ _ _ hrecv | shared d _ _ _ hrecv | created d _ _ _ hrecv
      | notCreated d _ _ hrecv | published d _ hrecv | aborted d _ _ _ hrecv =>
        rw [herror] at hrecv
        cases hrecv
  · intro d hd
    cases hmsg with
    | failed herror =>
        rw [herror] at hd
        cases hd
    | dropped d' hrecv hdropped =>
        obtain rfl : d' = d := Recv.datagram.inj (hrecv.symm.trans hd)
        rw [Offer.exchange_dropped hdropped]
        exact ⟨rfl, rfl⟩
    | plain d' m reply keep hrecv hm hreply =>
        obtain rfl : d' = d := Recv.datagram.inj (hrecv.symm.trans hd)
        rw [hreply.exchange h hm]
        exact ⟨rfl, rfl⟩
    | shared d' m p q hrecv hm htype hne hpq hmatches hown =>
        obtain rfl : d' = d := Recv.datagram.inj (hrecv.symm.trans hd)
        obtain rfl : p = x.pair := by
          have hcache := hpq.cache
          rw [h.held.cache] at hcache
          cases hcache
          rfl
        obtain rfl : q = x.pair + 1 := by
          have hlock := hpq.lock
          rw [h.held.lock] at hlock
          cases hlock
          rfl
        have hexchange : x.exchange c d' a.sent = ([.received c d',
            replyEvent c x.phase.share [.memfd x.pair, .memfd (x.pair + 1)] a.sent], a.sent) := by
          unfold Offer.exchange
          rw [hm]
          dsimp only
          rw [if_pos htype, if_pos (h.matches.mp hmatches)]
        rw [hexchange, ← h.share]
        exact ⟨rfl, rfl⟩
    | created _ _ _ _ _ _ _ hg | notCreated _ _ _ _ _ _ hg =>
        rw [hg] at hready
        cases hready
    | published d' m _ _ _ haccepted =>
        have hstate := (readyRefused_eq_false haccepted).1
        rw [hready] at hstate
        cases hstate
    | aborted _ _ _ _ _ _ _ hstate =>
        rw [hstate] at hready
        cases hready

/-- An exchange concerns its connection only. -/
theorem Offer.exchange_own {d : List UInt8} {sent : Bool} {e : Event}
    (he : e ∈ (x.exchange c d sent).1) : e.conn? = some c := by
  have hreply : ∀ m attached, (replyEvent c m attached sent).conn? = some c := by
    intro m attached
    cases sent <;> rfl
  unfold exchange at he
  split at he
  · split_ifs at he
    all_goals
      rw [List.mem_pair] at he
      rcases he with rfl | rfl
      · rfl
      · exact hreply _ _
  · rw [List.mem_singleton.mp he]
    rfl

end Message

/-! ### One turn -/

/-- What a turn of the client of `c` leaves: the events of its message, if one was handled, and
the connection closed or not. -/
structure TurnTaken (s : Desk) (client : ClientConnection) (c : ConnId) (said : List Event)
    (keep : Bool) (s' : Desk × Outcome) : Prop where
  generation : s'.1.generation = s.generation
  log : s'.1.kernel.log = s.kernel.log ++ (said ++ if keep then [] else [.closed (.conn c)])
  fds : s'.1.kernel.fds = if keep then s.kernel.fds else s.kernel.fds.remove client.fd
  fd : s'.2.client.fd = client.fd
  kept : s'.2.kept = keep
  own : ∀ e ∈ said, e.conn? = some c

namespace Desk

variable {s : Desk} {polled : Polled} {c : ConnId} {x : Offer}

/-- What examining it comes to, before the failures that `poll` reported are looked at. -/
structure Examined (s : Desk) (polled : Polled) (c : ConnId) (x : Offer) (a : Answers)
    (said : List Event) (keep : Bool) (s' : Desk × Outcome) : Prop where
  generation : s'.1.generation = s.generation
  log : s'.1.kernel.log = s.kernel.log ++ said
  fds : s'.1.kernel.fds = s.kernel.fds
  fd : s'.2.client.fd = polled.client.fd
  kept : s'.2.kept = keep
  own : ∀ e ∈ said, e.conn? = some c
  idle : polled.entry.revents.pollin = false → said = [] ∧ keep = true
  taken : polled.entry.revents.pollin = true → ∀ d, a.recv = .datagram d →
    said = (x.exchange c d a.sent).1 ∧ keep = (x.exchange c d a.sent).2

theorem examine_ready (hx : Offered s.kernel.fds s.generation x)
    (hc : s.kernel.fds.get polled.client.fd = some (.conn c)) (a : Answers) :
    ∃ said keep, Examined s polled c x a said keep (s.examine 0 polled a) := by
  have hne : s.generation.state ≠ .empty := by
    rw [hx.state]
    decide
  have hmsg : HandleMessage s.kernel polled.client c s.generation a _ :=
    brokerHandleClientMessage_spec hc (fun hempty => absurd hempty hne) fun _ => ⟨_, _, hx.held⟩
  have hhandled := hmsg.handled hx
  cases hpollin : polled.entry.revents.pollin with
  | false =>
      have hexamine : s.examine 0 polled a = (s, { client := polled.client, kept := true }) := by
        simp [examine, hpollin]
      rw [hexamine]
      refine ⟨[], true, rfl, (List.append_nil _).symm, rfl, rfl, rfl, by simp, fun _ => ⟨rfl, rfl⟩, ?_⟩
      intro hreadable
      rw [hpollin] at hreadable
      cases hreadable
  | true =>
      have hexamine : s.examine 0 polled a = s.serve polled.client a := by
        simp [examine, hpollin]
      have hidle : ∀ {said : List Event} {keep : Bool},
          polled.entry.revents.pollin = false → said = [] ∧ keep = true := by
        intro said keep hidle
        rw [hpollin] at hidle
        cases hidle
      rw [hexamine]
      cases hrecv : a.recv with
      | error =>
          obtain ⟨hlog, hkeep⟩ := hhandled.failed hrecv
          refine ⟨[], false, hhandled.generation, ?_, hhandled.fds, hhandled.fd, hkeep, by simp,
            hidle, ?_⟩
          · rw [List.append_nil]
            exact hlog
          · intro _ d hd
            rw [hrecv] at hd
            cases hd
      | datagram d =>
          obtain ⟨hlog, hkeep⟩ := hhandled.taken d hrecv
          refine ⟨(x.exchange c d a.sent).1, (x.exchange c d a.sent).2, hhandled.generation, hlog,
            hhandled.fds, hhandled.fd, hkeep, fun e he => Offer.exchange_own he, hidle, ?_⟩
          intro _ d' hd'
          rw [hrecv] at hd'
          cases hd'
          exact ⟨rfl, rfl⟩

/-- A turn of `c` while the generation is ready. When `poll` reported no failure, nothing happens
without a message, and a message is answered as the exchange tells. -/
theorem turn_ready (hx : Offered s.kernel.fds s.generation x)
    (hc : s.kernel.fds.get polled.client.fd = some (.conn c)) (a : Answers) :
    ∃ said keep, TurnTaken s polled.client c said keep (s.turn 0 polled a) ∧
      (polled.entry.revents.failed = false →
        (polled.entry.revents.pollin = false → said = [] ∧ keep = true) ∧
          (polled.entry.revents.pollin = true → ∀ d, a.recv = .datagram d →
            said = (x.exchange c d a.sent).1 ∧ keep = (x.exchange c d a.sent).2)) := by
  by_cases hclear : polled.entry.revents = .clear
  · have hturn : s.turn 0 polled a = (s, { client := polled.client, kept := true }) := by
      simp [turn, hclear]
    rw [hturn]
    refine ⟨[], true, ⟨rfl, (List.append_nil _).symm, rfl, rfl, rfl, by simp⟩, ?_⟩
    intro _
    refine ⟨fun _ => ⟨rfl, rfl⟩, fun hpollin => ?_⟩
    rw [hclear] at hpollin
    cases hpollin
  · obtain ⟨said, keep, h⟩ := examine_ready hx hc a
    generalize hexamined : s.examine 0 polled a = examined at h
    cases hstays : keep && !polled.entry.revents.failed with
    | true =>
        have hturn : s.turn 0 polled a = (examined.1, { examined.2 with kept := true }) := by
          simp only [turn, if_neg hclear, hexamined, h.kept, hstays, if_true]
        rw [hturn]
        refine ⟨said, true, ⟨h.generation, ?_, h.fds, h.fd, rfl, h.own⟩, ?_⟩
        · rw [if_pos rfl, List.append_nil]
          exact h.log
        · obtain ⟨rfl, -⟩ := Bool.and_eq_true_iff.mp hstays
          exact fun _ => ⟨h.idle, h.taken⟩
    | false =>
        have hother : ¬ (examined.1.generation.state = .initializing ∧
            examined.1.generation.creatorFd = examined.2.client.fd) := by
          rw [h.generation, hx.state]
          exact fun hinit => GenerationState.noConfusion hinit.1
        have hopen : examined.1.kernel.fds.get examined.2.client.fd = some (.conn c) := by
          rw [h.fds, h.fd]
          exact hc
        have hturn : s.turn 0 polled a = ({ examined.1 with
            kernel := examined.1.kernel.close examined.2.client.fd },
              { examined.2 with kept := false }) := by
          simp only [turn, if_neg hclear, hexamined, h.kept, hstays, Bool.false_eq_true, if_false,
            release, if_neg hother]
        rw [hturn, Kernel.close_of_open hopen]
        refine ⟨said, false, ⟨h.generation, ?_, ?_, h.fd, rfl, h.own⟩, ?_⟩
        · rw [if_neg Bool.false_ne_true, ← List.append_assoc, ← h.log]
        · rw [if_neg Bool.false_ne_true, ← h.fds, ← h.fd]
        · intro hfailed
          rw [hfailed, Bool.not_false, Bool.and_true] at hstays
          subst hstays
          exact ⟨h.idle, h.taken⟩

end Desk

/-- The events of one connection. -/
def concerning (c : ConnId) (events : List Event) : List Event :=
  events.filter fun e => decide (e.conn? = some c)

section Concerning

variable {c c' : ConnId} {events more : List Event}

theorem concerning_append :
    concerning c (events ++ more) = concerning c events ++ concerning c more :=
  List.filter_append _ _

theorem concerning_own (h : ∀ e ∈ events, e.conn? = some c) : concerning c events = events := by
  apply List.filter_eq_self.mpr
  intro e he
  exact decide_eq_true (h e he)

theorem concerning_none (h : ∀ e ∈ events, e.conn? ≠ some c) : concerning c events = [] := by
  apply List.filter_eq_nil_iff.mpr
  intro e he
  rw [decide_eq_true_iff]
  exact h e he

end Concerning

namespace Broker

open SwapRemove

/-- The client at this index is the connection `c`. -/
structure Seated (b : Broker) (c : ConnId) (index : Nat) (client : ClientConnection) : Prop where
  slot : b.clients[index]? = some client
  conn : b.kernel.fds.get client.fd = some (.conn c)

variable {b b' : Broker} {c c' : ConnId} {index j : Nat} {client other : ClientConnection} {x : Offer}

theorem Reachable.seated_once (h : Reachable b) (hseat : b.Seated c index client)
    (hother : b.Seated c j other) : j = index := by
  have hfd := h.tidied.conn_once _ _ c hother.conn hseat.conn
  exact h.inv.onlySlot hseat.slot j other hother.slot hfd

/-! ### The turns of others -/

theorem leaveEvents_conn {ph : Phase} {e : Event} (he : e ∈ ph.leaveEvents c) : e.conn? = none := by
  obtain ⟨-, p, -, rfl | rfl⟩ := Phase.mem_leaveEvents.mp he
  · rfl
  · rfl

/-- Serving one connection concerns no other. -/
theorem served_conn {ph ph' : Phase} {next next' : Nat} {events : List Event} {keep : Bool}
    (h : Served ph next c events ph' next' keep) {e : Event} (he : e ∈ events) :
    e.conn? = some c ∨ e.conn? = none := by
  have hreply : ∀ m attached sent, (replyEvent c m attached sent).conn? = some c := by
    intro m attached sent
    cases sent <;> rfl
  cases h with
  | unread => cases he
  | dropped d _ =>
      rw [List.mem_singleton.mp he]
      exact .inl rfl
  | answered | shared | created =>
      rcases List.mem_pair.mp he with rfl | rfl
      · exact .inl rfl
      · exact .inl (hreply _ _ _)
  | published =>
      rcases List.mem_pair.mp he with rfl | rfl
      · exact .inl rfl
      · exact .inl rfl
  | notCreated d m made sent =>
      rcases List.mem_append.mp he with hfirst | hlast
      · rcases List.mem_cons.mp hfirst with rfl | hmade
        · exact .inl rfl
        · obtain ⟨n, -, rfl⟩ := List.mem_map.mp hmade
          exact .inr rfl
      · rw [List.mem_singleton.mp hlast]
        exact .inl (hreply _ _ _)
  | aborted d m sent =>
      rcases List.mem_append.mp he with hfirst | hlast
      · rcases List.mem_cons.mp hfirst with rfl | hleave
        · exact .inl rfl
        · exact .inr (leaveEvents_conn hleave)
      · rw [List.mem_singleton.mp hlast]
        exact .inl (hreply _ _ _)

/-- A step in which the connection has no part. -/
def Quiet (b b' : Broker) (c : ConnId) : Prop :=
  ∃ more, b'.kernel.log = b.kernel.log ++ more ∧ concerning c more = []

theorem quiet_of_kernel (hk : b'.kernel = b.kernel) : b.Quiet b' c :=
  ⟨[], by rw [hk, List.append_nil], rfl⟩

theorem Reachable.dispatchClient_quiet (h : Reachable b) (hother : b.Seated c' j other)
    (hne : c' ≠ c) (events : Revents) (a : Answers) :
    b.Quiet (b.dispatchClient j events a) c := by
  obtain ⟨ph, hrep⟩ := h.inv.represents h.tidied
  have hclosing : ∀ {ph : Phase} {e : Event}, e ∈ ph.leaveEvents c' ++ [.closed (.conn c')] →
      e.conn? ≠ some c := by
    intro ph e he heq
    rcases List.mem_append.mp he with hleave | hclosed
    · rw [leaveEvents_conn hleave] at heq
      cases heq
    · rw [List.mem_singleton.mp hclosed] at heq
      exact hne (Option.some_inj.mp heq)
  rcases dispatchClient_cases b j events a with hsame | hclose | ⟨client, hclient, -, hserve⟩
  · exact quiet_of_kernel (congrArg Broker.kernel hsame)
  · rw [hclose]
    obtain ⟨hlog, -⟩ := closeClient_refines hrep h.tidied hother.slot hother.conn
    exact ⟨_, hlog, concerning_none fun e he => hclosing he⟩
  · obtain rfl : client = other := Option.some_inj.mp (hclient.symm.trans hother.slot)
    obtain ⟨c₁, hc₁, hmsg⟩ := h.inv.served hclient a
    obtain rfl : c₁ = c' := by
      rw [hother.conn] at hc₁
      cases hc₁
      rfl
    obtain ⟨said, ph', hlog, hrep', hserved⟩ := hmsg.refines hrep h.tidied hc₁
    have hsaid : ∀ e ∈ said, e.conn? ≠ some c := by
      intro e he heq
      rcases served_conn hserved he with hown | hnone
      · rw [hown] at heq
        exact hne (Option.some_inj.mp heq)
      · rw [hnone] at heq
        cases heq
    rcases hserve with ⟨-, hkept⟩ | hdropped
    · rw [hkept]
      exact ⟨said, hlog, concerning_none hsaid⟩
    · rw [hdropped]
      have hslot : (b.serveClient j client a).1.clients[j]? =
          some (brokerHandleClientMessage b.kernel client b.generation a).2.1 :=
        List.getElem?_set_self (List.getElem?_eq_some_iff.mp hclient).1
      have hconn : (b.serveClient j client a).1.kernel.fds.get
          (brokerHandleClientMessage b.kernel client b.generation a).2.1.fd = some (.conn c₁) := by
        rw [hmsg.served_fd]
        exact hmsg.keeps_open hc₁ (by simp)
      obtain ⟨hlog', -⟩ := closeClient_refines hrep' (hmsg.tidy h.tidied) hslot hconn
      refine ⟨said ++ (ph'.leaveEvents c₁ ++ [.closed (.conn c₁)]), ?_, ?_⟩
      · rw [← List.append_assoc, ← hlog]
        exact hlog'
      · rw [concerning_append, concerning_none hsaid, concerning_none fun e he => hclosing he]
        rfl

/-- The other clients stay in the array; only one behind `j` can get another index. -/
theorem Inv.dispatchClient_slot (h : b.Inv) (hslot : b.clients[index]? = some client)
    (hother : b.clients[j]? = some other) (hne : j ≠ index) (events : Revents) (a : Answers) :
    ∃ index', (b.dispatchClient j events a).clients[index']? = some client ∧
      (index' = index ∨ j ≤ index ∧ j ≤ index') := by
  obtain ⟨-, hclients⟩ := @dispatchClient_turn b j ⟨other, ⟨other.fd, events⟩⟩ hother a
  rw [hclients]
  obtain ⟨hlt, hget⟩ := List.getElem?_eq_some_iff.mp hother
  split
  · refine ⟨index, ?_, .inl rfl⟩
    rw [List.getElem?_set_ne hne]
    exact hslot
  · rcases Nat.lt_or_gt_of_ne hne with hbehind | hbelow
    · have hmem : client ∈ swapRemove b.clients j := by
        have hclient := (perm_swapRemove hlt).mem_iff.mp (List.mem_of_getElem? hslot)
        refine (List.mem_cons.mp hclient).resolve_left fun heq => ?_
        rw [heq, hget] at hslot
        exact hne (h.onlySlot hslot j other hother rfl)
      obtain ⟨index', hindex'⟩ := List.mem_iff_getElem?.mp hmem
      refine ⟨index', hindex', .inr ⟨hbehind.le, ?_⟩⟩
      by_contra hlow
      rw [getElem?_swapRemove_of_lt hlt (Nat.lt_of_not_le hlow)] at hindex'
      have hsame := h.onlySlot hslot index' client hindex' rfl
      omega
    · refine ⟨index, ?_, .inl rfl⟩
      rw [getElem?_swapRemove_of_lt hlt hbelow]
      exact hslot

theorem Reachable.acceptClient_quiet (h : Reachable b) (hseat : b.Seated c index client)
    (events : Revents) (a : AcceptAnswers) :
    b.Quiet (b.acceptClient events a) c ∧
      (b.acceptClient events a).clients[index]? = some client := by
  obtain ⟨haccepted, -⟩ := h.tidied.conn_open _ _ hseat.conn
  have hsame : ∀ {b' : Broker}, b'.kernel = b.kernel → b'.clients = b.clients →
      b.Quiet b' c ∧ b'.clients[index]? = some client := by
    intro b' hk hclients
    refine ⟨quiet_of_kernel hk, ?_⟩
    rw [hclients]
    exact hseat.slot
  unfold acceptClient
  split
  · split <;> exact hsame rfl rfl
  · rcases b.kernel.accept4_cases a.accepted with hfail | ⟨n, c', ha, hn, hfresh⟩
    · rw [hfail]
      simp only [Int.reduceNeg, Int.reduceLT, if_true]
      split <;> exact hsame rfl rfl
    · rw [ha, Kernel.accept4_of_fresh hn hfresh]
      dsimp only
      rw [if_neg (Int.not_lt.mpr (Int.natCast_nonneg n))]
      have hopened : Event.conn? (.accepted c') ≠ some c := by
        intro heq
        cases heq
        exact hfresh haccepted
      have hclosed : Event.conn? (.closed (.conn c')) ≠ some c := hopened
      have hnew : (b.kernel.withConn n c').fds.get (n : Fd) = some (.conn c') :=
        DescriptorTable.get_install_self n _
      have hrefused : ∀ {b' : Broker}, b'.kernel = (b.kernel.withConn n c').close n →
          b.Quiet b' c := by
        intro b' hk
        rw [Kernel.close_of_open hnew] at hk
        refine ⟨[.accepted c', .closed (.conn c')], ?_, ?_⟩
        · rw [hk]
          exact List.append_assoc _ _ _
        · exact concerning_none (by simp [hopened, hclosed])
      split
      · exact ⟨hrefused rfl, hseat.slot⟩
      · split
        · next clients' capacity hadd =>
            refine ⟨⟨[.accepted c'], rfl, concerning_none (by simp [hopened])⟩, ?_⟩
            show clients'[index]? = some client
            rw [brokerAddClient_clients hadd,
              List.getElem?_append_left (List.getElem?_eq_some_iff.mp hseat.slot).1]
            exact hseat.slot
        · exact ⟨hrefused rfl, hseat.slot⟩

theorem limitReached_of_unlimited (hmax : b.maxClients = 0) : b.limitReached = false := by
  simp [limitReached, hmax]

theorem growAndPoll_clients (b : Broker) (reallocated : Bool) (poll : PollAnswer) :
    (b.growAndPoll reallocated poll).clients = b.clients := by
  unfold growAndPoll
  split
  · rfl
  · dsimp only
    split
    · rfl
    · cases poll <;> rfl

/-- Every step but the connection's own turn and the last one passes it by. -/
theorem Reachable.step_passesBy (h : Reachable b) (hmax : b.maxClients = 0)
    (hseat : b.Seated c index client) (i : Input)
    (hown : ∀ a fds, i = .dispatch a → b.pc ≠ .dispatch (index + 1) fds)
    (hstays : (b.step i).pc ≠ .returned) :
    b.Quiet (b.step i) c ∧ ∃ index', (b.step i).Seated c index' client ∧
      (index' = index ∨ ∃ j fds, b.pc = .dispatch (j + 1) fds ∧ (b.step i).pc = .dispatch j fds ∧
        j ≤ index ∧ j ≤ index') := by
  have hslots : b.Quiet (b.step i) c ∧ ∃ index', (b.step i).clients[index']? = some client ∧
      (index' = index ∨ ∃ j fds, b.pc = .dispatch (j + 1) fds ∧ (b.step i).pc = .dispatch j fds ∧
        j ≤ index ∧ j ≤ index') := by
    have hsame : ∀ {b' : Broker}, b'.kernel = b.kernel → b'.clients = b.clients →
        b.Quiet b' c ∧ ∃ index', b'.clients[index']? = some client ∧ (index' = index ∨
          ∃ j fds, b.pc = .dispatch (j + 1) fds ∧ b'.pc = .dispatch j fds ∧
            j ≤ index ∧ j ≤ index') := by
      intro b' hk hclients
      refine ⟨quiet_of_kernel hk, index, ?_, .inl rfl⟩
      rw [hclients]
      exact hseat.slot
    cases i with
    | signal => exact hsame rfl rfl
    | head reallocated poll =>
        simp only [step]
        split
        · unfold loopHead
          rw [limitReached_of_unlimited hmax]
          split
          · exact hsame rfl rfl
          · exact hsame (growAndPoll_kernel b reallocated poll)
              (growAndPoll_clients b reallocated poll)
        · exact hsame rfl rfl
    | dispatch a =>
        simp only [step]
        split
        · exact hsame rfl rfl
        · next j fds hpc =>
            have hne : j ≠ index := by
              rintro rfl
              exact hown a fds rfl hpc
            cases hslot : b.clients[j]? with
            | none =>
                have hnothing : b.dispatchClient j ((fds[j + 1]?).elim .clear (·.revents)) a = b := by
                  simp only [dispatchClient, hslot]
                rw [hnothing]
                exact hsame rfl rfl
            | some other =>
                obtain ⟨c', hc'⟩ := h.inv.clients_open other (List.mem_of_getElem? hslot)
                have hcc : c' ≠ c := by
                  rintro rfl
                  exact hne (h.seated_once hseat ⟨hslot, hc'⟩)
                obtain ⟨index', hindex', hplace⟩ := h.inv.dispatchClient_slot hseat.slot hslot hne
                  ((fds[j + 1]?).elim .clear (·.revents)) a
                refine ⟨h.dispatchClient_quiet ⟨hslot, hc'⟩ hcc _ a, index', hindex', ?_⟩
                exact hplace.imp id fun hbehind => ⟨j, fds, hpc, rfl, hbehind⟩
        · exact hsame rfl rfl
    | accept a =>
        simp only [step]
        split
        · next events hpc =>
            obtain ⟨hquiet, hslot⟩ := h.acceptClient_quiet hseat events a
            exact ⟨hquiet, index, hslot, .inl rfl⟩
        · exact hsame rfl rfl
    | leave =>
        simp only [step] at hstays ⊢
        split
        · next hpc =>
            simp only [hpc] at hstays
            exact absurd rfl hstays
        · exact hsame rfl rfl
  obtain ⟨hquiet, index', hslot, hplace⟩ := hslots
  obtain ⟨c', hc'⟩ := (h.step_reachable i).inv.clients_open client (List.mem_of_getElem? hslot)
  have hsettled := h.inv.step_settles i client.fd _ _ hseat.conn hc'
  exact ⟨hquiet, index', ⟨hslot, hc'.trans (congrArg some hsettled)⟩, hplace⟩

/-! ### Its own turn -/

/-- The turn of the client at `j`, as the tables show it. -/
theorem dispatchClient_ready (hx : Offered b.kernel.fds b.generation x) (hmax : b.maxClients = 0)
    (hother : b.Seated c' j other) (events : Revents) (a : Answers) :
    ∃ said keep, ∃ served : ClientConnection, served.fd = other.fd ∧
      (b.dispatchClient j events a).kernel.log =
        b.kernel.log ++ (said ++ if keep then [] else [.closed (.conn c')]) ∧
      (b.dispatchClient j events a).kernel.fds =
        (if keep then b.kernel.fds else b.kernel.fds.remove other.fd) ∧
      (b.dispatchClient j events a).clients =
        (if keep then b.clients.set j served else swapRemove b.clients j) ∧
      (∀ e ∈ said, e.conn? = some c') ∧
      (events.failed = false → (events.pollin = false → said = [] ∧ keep = true) ∧
        (events.pollin = true → ∀ d, a.recv = .datagram d →
          said = (x.exchange c' d a.sent).1 ∧ keep = (x.exchange c' d a.sent).2)) := by
  have hturn := @dispatchClient_turn b j ⟨other, ⟨other.fd, events⟩⟩ hother.slot a
  rw [hmax] at hturn
  obtain ⟨hdesk, hclients⟩ := hturn
  obtain ⟨said, keep, htaken, hanswer⟩ :=
    @Desk.turn_ready b.desk ⟨other, ⟨other.fd, events⟩⟩ c' x hx hother.conn a
  have hkernel := congrArg Desk.kernel hdesk
  refine ⟨said, keep, _, htaken.fd, ?_, ?_, ?_, htaken.own, hanswer⟩
  · exact (congrArg Kernel.log hkernel).trans htaken.log
  · exact (congrArg Kernel.fds hkernel).trans htaken.fds
  · rw [← htaken.kept]
    exact hclients

/-- The connection's own turn. -/
theorem step_own (hx : Offered b.kernel.fds b.generation x) (hmax : b.maxClients = 0)
    (hseat : b.Seated c index client) {fds : List PollFd} {entry : PollFd}
    (hpc : b.pc = .dispatch (index + 1) fds) (hentry : fds[index + 1]? = some entry)
    (hfailed : entry.revents.failed = false) (a : Answers) :
    (b.step (.dispatch a)).pc = .dispatch index fds ∧ ∃ said keep,
      (b.step (.dispatch a)).kernel.log =
        b.kernel.log ++ (said ++ if keep then [] else [.closed (.conn c)]) ∧
      (entry.revents.pollin = false → said = [] ∧ keep = true) ∧
      (entry.revents.pollin = true → ∀ d, a.recv = .datagram d →
        said = (x.exchange c d a.sent).1 ∧ keep = (x.exchange c d a.sent).2) ∧
      (keep = true → ∃ served, (b.step (.dispatch a)).Seated c index served) := by
  obtain ⟨said, keep, served, hserved, hlog, hfds, hclients, -, hanswer⟩ :=
    dispatchClient_ready hx hmax hseat entry.revents a
  obtain ⟨hidle, htaken⟩ := hanswer hfailed
  have hstep : b.step (.dispatch a) =
      { b.dispatchClient index entry.revents a with pc := .dispatch index fds } := by
    simp only [step, hpc, hentry, Option.elim_some]
  rw [hstep]
  refine ⟨rfl, said, keep, hlog, hidle, htaken, ?_⟩
  rintro rfl
  rw [if_pos rfl] at hfds hclients
  refine ⟨served, ?_, ?_⟩
  · show (b.dispatchClient index entry.revents a).clients[index]? = some served
    rw [hclients, List.getElem?_set_self (List.getElem?_eq_some_iff.mp hseat.slot).1]
  · show (b.dispatchClient index entry.revents a).kernel.fds.get served.fd = some (.conn c)
    rw [hfds, hserved]
    exact hseat.conn

end Broker

end Hyperglyph
