import Hyperglyph.Deployment.Attendance

/-! Clients of a ready broker are isolated from each other: what one of them hears, and when it is
closed, is the same in any two runs that differ in the others. -/
namespace Hyperglyph

namespace Crowd

variable {s t u : Crowd} {c : ConnId} {labels : List Label} {label : Label}

/-! ### Nobody waits for long -/

theorem polls_append {more : List Label} : polls (labels ++ more) = polls labels + polls more :=
  List.countP_append

/-- The messages that `c` had waiting are handled, one each time `poll` returns. -/
inductive Pace (s : Crowd) (c : ConnId) (labels : List Label) (t : Crowd) : Prop
  | ended : Event.closed (.conn c) ∈ s.broker.newEvents t.broker → Pace s c labels t
  | abreast : min (polls labels) (s.channels c).toBroker.length ≤
      (takenFrom c (s.broker.newEvents t.broker)).length → Pace s c labels t
  | due : min (polls labels) (s.channels c).toBroker.length ≤
      (takenFrom c (s.broker.newEvents t.broker)).length + 1 → t.Due c → Pace s c labels t

/-- A step that passes `c` by and is not the return of `poll`. -/
theorem Pace.pass (h : Pace s c labels t) (hs : s.Reachable) (hrun : Run s labels t)
    (hstep : Step t label u) (hpolls : polls [label] = 0)
    (hquiet : concerning c (t.broker.newEvents u.broker) = []) (hdue : t.Due c → u.Due c) :
    Pace s c (labels ++ [label]) u := by
  have hnew := newEvents_next hs hrun hstep
  have htaken : takenFrom c (s.broker.newEvents u.broker) =
      takenFrom c (s.broker.newEvents t.broker) := by
    rw [hnew, takenFrom_append, takenFrom_of_quiet hquiet, List.append_nil]
  have hcount : polls (labels ++ [label]) = polls labels := by
    rw [polls_append, hpolls, Nat.add_zero]
  cases h with
  | ended hclosed =>
      refine .ended ?_
      rw [hnew]
      exact List.mem_append_left _ hclosed
  | abreast hle =>
      refine .abreast ?_
      rw [hcount, htaken]
      exact hle
  | due hle hbefore =>
      refine .due ?_ (hdue hbefore)
      rw [hcount, htaken]
      exact hle

/-- `poll` returns: either nothing of `c` is waiting, or the round that begins comes to it. -/
theorem Pace.polled {reallocated : Bool} {revents : List Revents} {index : Nat}
    {client : ClientConnection} (h : Pace s c labels t) (hattended : Attended s c labels t)
    (hs : s.Reachable) (hrun : Run s labels t) (hseat : t.broker.Seated c index client)
    (hup : (t.channels c).peerClosed = false)
    (hstep : Step t (.broker (.head reallocated (.ready revents))) u)
    (hleaving : u.broker.pc ≠ .leaving) :
    Pace s c (labels ++ [.broker (.head reallocated (.ready revents))]) u := by
  have ht : t.Reachable := hs.extend hrun
  obtain ⟨hsucceed, hbroker, -⟩ :=
    stepBroker_eq_some (i := .head reallocated (.ready revents)) hstep
  obtain ⟨hpc, hk, hclients, -, -, hplace⟩ := head_cases ht.truthful.unlimited hsucceed
  rw [← hbroker] at hk hclients hplace
  have hnew : s.broker.newEvents u.broker = s.broker.newEvents t.broker := by
    rw [newEvents_next hs hrun hstep, show t.broker.newEvents u.broker = [] by
      rw [Broker.newEvents, hk, List.drop_length], List.append_nil]
  have hcount : polls (labels ++ [.broker (.head reallocated (.ready revents))]) =
      polls labels + 1 := polls_append
  cases h with
  | ended hclosed =>
      refine .ended ?_
      rw [hnew]
      exact hclosed
  | due _ hdue =>
      obtain ⟨j, fds, index', client', entry, hdispatch, -⟩ := hdue
      rw [hpc] at hdispatch
      cases hdispatch
  | abreast hle =>
      rcases hplace with ⟨hleaves, -⟩ | ⟨hinterrupted, -⟩ | ⟨revents', hready, hreports, hpolled⟩
      · exact absurd hleaves hleaving
      · cases hinterrupted
      · cases hready
        have horder := hattended.order
        cases hwaiting : (t.channels c).toBroker with
        | nil =>
            refine .abreast ?_
            rw [hwaiting, List.append_nil] at horder
            rw [hnew, horder, List.length_append]
            omega
        | cons d rest =>
            obtain ⟨entry, hentry, -, hreadable⟩ := polled_entry hreports hseat hup
            refine .due ?_ ⟨_, _, index, client, entry, hpolled, ⟨?_, ?_⟩, ?_, hentry, ?_⟩
            · rw [hcount, hnew]
              omega
            · rw [hclients]
              exact hseat.slot
            · rw [hk]
              exact hseat.conn
            · exact (List.getElem?_eq_some_iff.mp hseat.slot).1
            · rw [hreadable, hwaiting]
              exact List.cons_ne_nil _ _

theorem Pace.broker {i : Input} (h : Pace s c labels t) (hattended : Attended s c labels t)
    (hs : s.Reachable) (hready : s.broker.generation.state = .ready) (hrun : Run s labels t)
    (hup : (t.channels c).peerClosed = false) (hstep : Step t (.broker i) u)
    (hstays : u.broker.pc ≠ .returned) (hleaving : u.broker.pc ≠ .leaving) :
    Pace s c (labels ++ [.broker i]) u := by
  have hnew := newEvents_next hs hrun hstep
  cases hattended.standing with
  | closed hclosed =>
      refine .ended ?_
      rw [hnew]
      exact List.mem_append_left _ hclosed
  | serving hseat =>
      have ht : t.Reachable := hs.extend hrun
      obtain ⟨index, client, hseated⟩ := hseat
      obtain ⟨-, hx⟩ := hs.ready_run hready hrun (runs_before hstep hstays)
      rcases passed_or_heard ht hx hseated hup hstep hstays with hpassed | ⟨a, d, rfl, hheard⟩
      · by_cases hpolls : polls [.broker i] = 0
        · exact h.pass hs hrun hstep hpolls hpassed.quiet hpassed.due
        · cases i with
          | head reallocated poll =>
              cases poll with
              | ready revents => exact h.polled hattended hs hrun hseated hup hstep hleaving
              | interrupted | error => exact absurd rfl hpolls
          | signal | dispatch | accept | leave => exact absurd rfl hpolls
      · have htaken : (takenFrom c (s.broker.newEvents u.broker)).length =
            (takenFrom c (s.broker.newEvents t.broker)).length + 1 := by
          rw [hnew, takenFrom_append, hheard.taken, List.length_append, List.length_singleton]
        have hcount : polls (labels ++ [.broker (.dispatch a)]) = polls labels := polls_append
        cases h with
        | ended hclosed =>
            refine .ended ?_
            rw [hnew]
            exact List.mem_append_left _ hclosed
        | abreast hle | due hle =>
            refine .abreast ?_
            rw [hcount, htaken]
            omega

theorem pace_run {index : Nat} {client : ClientConnection} (hs : s.Reachable)
    (hready : s.broker.generation.state = .ready) (hseat : s.broker.Seated c index client)
    (hrun : Run s labels t) (hup : (t.channels c).peerClosed = false)
    (hstays : t.broker.pc ≠ .returned) (hleaving : t.broker.pc ≠ .leaving) :
    Pace s c labels t := by
  induction hrun with
  | start =>
      refine .abreast ?_
      rw [show polls [] = 0 from rfl, Nat.zero_min]
      exact Nat.zero_le _
  | @next labels t label u hbefore hlast ih =>
      have hup' := up_before hlast hup
      have hstays' := runs_before hlast hstays
      have hpace := ih hup' hstays' (leaving_before hlast hstays hleaving)
      have hattended := attended_run hs hready hseat hbefore hup' hstays'
      cases label with
      | broker i => exact hpace.broker hattended hs hready hbefore hup' hlast hstays hleaving
      | peer c' act =>
          have hbroker := (step_peer hlast).1
          refine hpace.pass hs hbefore hlast rfl ?_ ?_
          · rw [hbroker, Broker.newEvents, List.drop_length]
            rfl
          · rintro ⟨j, fds, index', client', entry, hpc, hseated, hdue⟩
            rw [← hbroker] at hpc hseated
            exact ⟨j, fds, index', client', entry, hpc, hseated, hdue⟩

/-- When `n` rounds are over, the first `n` messages of those that were waiting were handled. -/
theorem Pace.rounds (h : Pace s c labels t) (htop : t.broker.pc = .top) :
    Event.closed (.conn c) ∈ s.broker.newEvents t.broker ∨
      min (polls labels) (s.channels c).toBroker.length ≤
        (takenFrom c (s.broker.newEvents t.broker)).length := by
  cases h with
  | ended hclosed => exact .inl hclosed
  | abreast hle => exact .inr hle
  | due _ hdue =>
      obtain ⟨j, fds, index, client, entry, hpc, -⟩ := hdue
      rw [htop] at hpc
      cases hpc

/-! ### Two runs -/

/-- Nothing that `c` said is still to be handled. -/
def Settled (s : Crowd) (c : ConnId) (t : Crowd) : Prop :=
  (t.channels c).toBroker = [] ∨ Event.closed (.conn c) ∈ s.broker.newEvents t.broker

variable {s' t' : Crowd} {labels' : List Label} {sends : Nat → Bool}

theorem Attended.closes (h : Attended s c labels t) (ht : t.Reachable)
    (hclosed : Event.closed (.conn c) ∈ s.broker.newEvents t.broker)
    (hsends : SentAs c (s.broker.newEvents t.broker) sends) :
    s.broker.offer.outlives c sends 0 (takenFrom c (s.broker.newEvents t.broker)) = false := by
  cases h.standing with
  | closed _ hends => exact hends sends hsends
  | serving hseat =>
      obtain ⟨index, client, hseated⟩ := hseat
      exact absurd (List.mem_of_mem_drop hclosed) (ht.broker.tidied.conn_open _ _ hseated.conn).2

/-- A run that has handled more continues what was said in the other, unless that is all. -/
theorem Attended.extends (h : Attended s c labels t) (h' : Attended s' c labels' t')
    (ht : t.Reachable) (hoffer : s'.broker.offer = s.broker.offer)
    (hscript : (s.channels c).toBroker ++ spoken c labels =
      (s'.channels c).toBroker ++ spoken c labels')
    (hsends : SentAs c (s.broker.newEvents t.broker) sends)
    (hsends' : SentAs c (s'.broker.newEvents t'.broker) sends)
    (hmore : takenFrom c (s.broker.newEvents t.broker) <+:
      takenFrom c (s'.broker.newEvents t'.broker)) :
    concerning c (s.broker.newEvents t.broker) <+: concerning c (s'.broker.newEvents t'.broker) ∧
      (Settled s c t → concerning c (s.broker.newEvents t.broker) =
        concerning c (s'.broker.newEvents t'.broker)) := by
  obtain ⟨more, hmore⟩ := hmore
  rw [h.talk sends hsends, h'.talk sends hsends', hoffer, ← hmore]
  refine ⟨Offer.conversation_extends, ?_⟩
  rintro (hwaiting | hclosed)
  · have horder := h.order
    rw [hwaiting, List.append_nil, hscript, ← h'.order, ← hmore, List.append_assoc] at horder
    have hnone : more = [] := (List.append_eq_nil_iff.mp (List.self_eq_append_right.mp horder)).1
    rw [hnone, List.append_nil]
  · exact (Offer.conversation_of_not_outlives (h.closes ht hclosed hsends)).symm

/-- What one connection hears depends on nothing else. -/
theorem Attended.alone (h : Attended s c labels t) (h' : Attended s' c labels' t')
    (ht : t.Reachable) (ht' : t'.Reachable) (hoffer : s'.broker.offer = s.broker.offer)
    (hscript : (s.channels c).toBroker ++ spoken c labels =
      (s'.channels c).toBroker ++ spoken c labels')
    (hsends : SentAs c (s.broker.newEvents t.broker) sends)
    (hsends' : SentAs c (s'.broker.newEvents t'.broker) sends) :
    (concerning c (s.broker.newEvents t.broker) <+: concerning c (s'.broker.newEvents t'.broker) ∨
      concerning c (s'.broker.newEvents t'.broker) <+: concerning c (s.broker.newEvents t.broker)) ∧
      (Settled s c t → Settled s' c t' → concerning c (s.broker.newEvents t.broker) =
        concerning c (s'.broker.newEvents t'.broker)) := by
  have hfirst : takenFrom c (s.broker.newEvents t.broker) <+:
      (s.channels c).toBroker ++ spoken c labels := ⟨_, h.order⟩
  have hsecond : takenFrom c (s'.broker.newEvents t'.broker) <+:
      (s.channels c).toBroker ++ spoken c labels := by
    rw [hscript]
    exact ⟨_, h'.order⟩
  rcases List.prefix_or_prefix_of_prefix hfirst hsecond with hmore | hmore
  · obtain ⟨hextends, hsame⟩ := h.extends h' ht hoffer hscript hsends hsends' hmore
    exact ⟨.inl hextends, fun hsettled _ => hsame hsettled⟩
  · obtain ⟨hextends, hsame⟩ :=
      h'.extends h ht' hoffer.symm hscript.symm hsends' hsends hmore
    exact ⟨.inr hextends, fun _ hsettled => (hsame hsettled).symm⟩

/-! ### The ready broker -/

theorem runs_from (h : Run s labels t) (hruns : t.broker.pc ≠ .returned) :
    s.broker.pc ≠ .returned := by
  induction h with
  | start => exact hruns
  | next _ hlast ih => exact ih (runs_before hlast hruns)

/-- A part of a run of `s` at whose start `c` has its place in the array, and in which it does not
hang up. -/
structure Stretch (s : Crowd) (c : ConnId) (m : Crowd) (labels : List Label) (t : Crowd) :
    Prop where
  follows : ∃ earlier, Run s earlier m
  seated : ∃ index client, m.broker.Seated c index client
  run : Run m labels t
  up : (t.channels c).peerClosed = false
  stays : t.broker.pc ≠ .returned

/-- What is promised from `s` on. -/
structure Isolates (s : Crowd) : Prop where
  /-- The generation is permanent, and its descriptors keep their files. -/
  permanent : ∀ {labels t}, Run s labels t → t.broker.pc ≠ .returned →
    t.broker.generation = s.broker.generation ∧ t.broker.generation.creatorFd = -1 ∧
      Offered t.broker.kernel.fds t.broker.generation s.broker.offer
  /-- The broker leaves only when it is told to. -/
  goesOn : ∀ {labels t}, Run s labels t → t.broker.pc = .leaving ∨ t.broker.pc = .returned →
    t.broker.stopping = true
  /-- Every message is handled once and in order, and what is said and when the connection is
  closed follow from the generation, the messages and the sends that fail. -/
  attends : ∀ {c m labels t}, Stretch s c m labels t →
    m.broker.offer = s.broker.offer ∧ Attended m c labels t
  /-- Messages are not left waiting. -/
  rounds : ∀ {c m labels t}, Stretch s c m labels t → t.broker.pc = .top →
    Event.closed (.conn c) ∈ m.broker.newEvents t.broker ∨
      min (polls labels) (m.channels c).toBroker.length ≤
        (takenFrom c (m.broker.newEvents t.broker)).length
  /-- Two runs that agree on a connection agree on what it hears. -/
  alone : ∀ {s' : Crowd}, s'.Reachable → s'.broker.generation.state = .ready →
    s'.broker.offer = s.broker.offer → ∀ {c m labels t m' labels' t'},
      Stretch s c m labels t → Stretch s' c m' labels' t' →
      (m.channels c).toBroker ++ spoken c labels = (m'.channels c).toBroker ++ spoken c labels' →
      ∀ sends, SentAs c (m.broker.newEvents t.broker) sends →
        SentAs c (m'.broker.newEvents t'.broker) sends →
        (concerning c (m.broker.newEvents t.broker) <+:
            concerning c (m'.broker.newEvents t'.broker) ∨
          concerning c (m'.broker.newEvents t'.broker) <+:
            concerning c (m.broker.newEvents t.broker)) ∧
          (Settled m c t → Settled m' c t' → concerning c (m.broker.newEvents t.broker) =
            concerning c (m'.broker.newEvents t'.broker))

theorem Stretch.attended {m : Crowd} (h : Stretch s c m labels t) (hs : s.Reachable)
    (hready : s.broker.generation.state = .ready) :
    m.Reachable ∧ m.broker.generation.state = .ready ∧ m.broker.offer = s.broker.offer ∧
      Attended m c labels t := by
  obtain ⟨earlier, hearlier⟩ := h.follows
  obtain ⟨index, client, hseat⟩ := h.seated
  have hm : m.Reachable := hs.extend hearlier
  obtain ⟨hsame, hx⟩ := hs.ready_run hready hearlier (runs_from h.run h.stays)
  have hready' : m.broker.generation.state = .ready := by rw [hsame, hready]
  refine ⟨hm, hready', ?_, attended_run hm hready' hseat h.run h.up h.stays⟩
  exact (hm.broker.offered hready').unique hx

/-- In a broker without a limit a ready generation is permanent, and its clients are isolated from
each other. -/
theorem ready_generation_isolates (hs : s.Reachable)
    (hready : s.broker.generation.state = .ready) : Isolates s := by
  refine ⟨?_, ?_, ?_, ?_, ?_⟩
  · intro labels t hrun hstays
    obtain ⟨hsame, hx⟩ := hs.ready_run hready hrun hstays
    have ht : t.Reachable := hs.extend hrun
    exact ⟨hsame, ((Broker.table_invariant ht.broker).ready hx.state).2.2.1, hx⟩
  · intro labels t hrun hgone
    have ht : t.Reachable := hs.extend hrun
    exact ht.truthful.told hgone
  · intro c m labels t hstretch
    obtain ⟨-, -, hoffer, hattended⟩ := hstretch.attended hs hready
    exact ⟨hoffer, hattended⟩
  · intro c m labels t hstretch htop
    obtain ⟨hm, hready', -, -⟩ := hstretch.attended hs hready
    obtain ⟨index, client, hseat⟩ := hstretch.seated
    refine (pace_run hm hready' hseat hstretch.run hstretch.up hstretch.stays ?_).rounds htop
    rw [htop]
    exact Pc.noConfusion
  · intro s' hs' hready' hoffer c m labels t m' labels' t' hstretch hstretch' hscript sends hsends
      hsends'
    obtain ⟨hm, -, hoffer₁, hattended⟩ := hstretch.attended hs hready
    obtain ⟨hm', -, hoffer₂, hattended'⟩ := hstretch'.attended hs' hready'
    refine hattended.alone hattended' (hm.extend hstretch.run) (hm'.extend hstretch'.run) ?_ hscript
      hsends hsends'
    rw [hoffer₂, hoffer, hoffer₁]

/-- The `READY` that answers `CREATE` for one page. -/
def pagePublished : MessageV1 :=
  { brokerMessageInit .ready with
    mappingSize := 4096, mappingBase := 65536, sharedGlobalsOffset := 16 }

/-- A round in which only the connection at index 0 is readable, with the datagram `d`. -/
def heard (d : List UInt8) : List Label :=
  [.peer 0 (.say d), .broker (.head true (.ready [.clear, Broker.readable])),
    .broker (.dispatch (Broker.answering d)), .broker (.dispatch (Broker.answering [])),
    .broker (.accept Broker.acceptNone)]

/-- One client connects, creates a generation and publishes it. -/
def publishing : List Label :=
  [.peer 0 .connect, .broker (.head true (.ready [Broker.readable])),
    .broker (.dispatch (Broker.answering [])),
    .broker (.accept (Broker.accepting 4 0))] ++
    heard Broker.pageRequest.encode ++ heard pagePublished.encode

theorem publishing_ready :
    ((start 3).run publishing).map (·.broker.generation.state) = some .ready := by
  decide +kernel

theorem ready_generation_isolates_published :
    ∃ s, (start 3).run publishing = some s ∧ Isolates s := by
  obtain ⟨s, hrun, hready⟩ := Option.map_eq_some_iff.mp publishing_ready
  have hs : s.Reachable := ⟨_, publishing, ⟨3, rfl⟩, run_of_run hrun⟩
  exact ⟨s, hrun, ready_generation_isolates hs hready⟩

end Crowd

end Hyperglyph
