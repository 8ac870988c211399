import Hyperglyph.Broker.Invariant
import Hyperglyph.Listener.SocketPath

/-! Who owns the entry at the socket path. Nothing records it: a start-up compares inodes
before it unlinks, and the exit unlinks whatever is there. -/
namespace Hyperglyph

namespace SocketPath

variable {h : Host} {s t : SocketPath} {a b c : BrokerId} {call : Call}

@[simp] theorem setStage_self (s : SocketPath) (b : BrokerId) (st : PathStage) :
    (s.setStage b st).stages b = st := by
  simp only [setStage, Function.update_self]

theorem setStage_of_ne (s : SocketPath) (st : PathStage) (hne : a ≠ b) :
    (s.setStage b st).stages a = s.stages a := by
  simp only [setStage, Function.update_of_ne hne]

@[simp] theorem setStage_entry (s : SocketPath) (b : BrokerId) (st : PathStage) :
    (s.setStage b st).entry = s.entry := rfl

@[simp] theorem setStage_binds (s : SocketPath) (b : BrokerId) (st : PathStage) :
    (s.setStage b st).binds = s.binds := rfl

/-- The entry at the path is the socket that `b` bound. -/
def Names (s : SocketPath) (b : BrokerId) : Prop := ∃ e, s.entry = some e ∧ e.binder = some b

theorem Names.unique (ha : s.Names a) (hb : s.Names b) : a = b := by
  obtain ⟨e, he, hbinder⟩ := ha
  obtain ⟨e', he', hbinder'⟩ := hb
  rw [he] at he'
  cases he'
  rw [hbinder] at hbinder'
  exact Option.some.inj hbinder'

theorem names_start (entry : Option FileStatus) : ¬ (start entry).Names b := by
  rintro ⟨e, he, hbinder⟩
  obtain ⟨status, -, rfl⟩ := Option.map_eq_some_iff.mp he
  cases hbinder

theorem names_bind {id : Nat × Nat} (hentry : s.entry = none) :
    (s.bind h b (some id)).Names a ↔ a = b := by
  have hbind : (s.bind h b (some id)).entry =
      some ⟨⟨true, h.effectiveUid, id.1, id.2⟩, some b⟩ := by simp only [bind, hentry]
  constructor
  · rintro ⟨e, he, hbinder⟩
    rw [hbind] at he
    cases he
    exact (Option.some.inj hbinder).symm
  · rintro rfl
    exact ⟨_, hbind, rfl⟩

theorem bind_stages {id : Nat × Nat} (hentry : s.entry = none) :
    (s.bind h b (some id)).stages = (s.setStage b .chmod).stages := by
  simp only [bind, hentry]

theorem bind_binds {id : Nat × Nat} (hentry : s.entry = none) :
    (s.bind h b (some id)).binds = s.binds ++ [b] := by
  simp only [bind, hentry]

theorem names_removeEntry (st : PathStage) : ¬ (s.removeEntry.setStage b st).Names a := by
  rintro ⟨e, he, -⟩
  cases he

/-- Who bound the path has not gone back to an earlier stage. -/
def BinderBound (s : SocketPath) : Prop :=
  ∀ b, s.Names b → (s.stages b).bound = true ∨ s.stages b = .ended

theorem BinderBound.step (hs : s.BinderBound) (hstep : Stepped h s b call t) : t.BinderBound := by
  intro a ha
  cases hstep with
  | moved _ hkeep _ hend _ =>
      by_cases heq : a = b
      · subst heq
        rw [setStage_self]
        rcases hs a ha with hbound | hended
        · exact hkeep hbound
        · exact .inr (hend hended)
      · rw [setStage_of_ne s _ heq]
        exact hs a ha
  | removed => exact absurd ha (names_removeEntry _)
  | bound id _ _ hentry =>
      obtain rfl := (names_bind hentry).mp ha
      rw [bind_stages hentry, setStage_self]
      exact .inl rfl

theorem Reachable.invariant {I : SocketPath → Prop} {ok : SocketPath → BrokerId × Call → Prop}
    (hinit : ∀ entry, I (start entry))
    (hstep : ∀ {s t b call}, I s → ok s (b, call) → Stepped h s b call t → I t)
    (hs : Execution.Reachable (Execution.Guarded (Step h) ok) Init s) : I s := by
  refine Execution.Reachable.invariant (I := I) ?_ ?_ hs
  · rintro s ⟨entry, rfl⟩
    exact hinit entry
  · intro s label t hI hguarded
    exact hstep hI hguarded.1 (step_spec hguarded.2)

/-! ### The `unlink` of the exit -/

/-- The entry an exiting broker is about to unlink is not that of another live broker. -/
def ExitSafe (s : SocketPath) : Prop :=
  ∀ a b, (s.stages a).exiting = true → s.Names b → b ≠ a → (s.stages b).live = false

/-- If this is a `bind` that succeeds, no other broker has its exit's `unlink` before it. -/
def BindsAlone (s : SocketPath) (label : BrokerId × Call) : Prop :=
  ∀ id, label.2 = .bind (some id) → s.entry = none →
    ∀ a, a ≠ label.1 → (s.stages a).armed = false

structure ExitInvariant (s : SocketPath) : Prop where
  binder : s.BinderBound
  alone : ∀ a b, (s.stages a).armed = true → s.Names b → b ≠ a → s.stages b = .ended

theorem ExitInvariant.step (hs : s.ExitInvariant) (hok : s.BindsAlone (b, call))
    (hstep : Stepped h s b call t) : t.ExitInvariant := by
  refine ⟨hs.binder.step hstep, ?_⟩
  intro a c harmed hc hne
  cases hstep with
  | @moved st hbound hkeep harm hend hunlink =>
      have hold : (s.stages a).armed = true := by
        by_cases heq : a = b
        · subst heq
          rw [setStage_self] at harmed
          exact harm harmed
        · rwa [setStage_of_ne s _ heq] at harmed
      have hended := hs.alone a c hold hc hne
      by_cases heq : c = b
      · subst heq
        rw [setStage_self]
        exact hend hended
      · rw [setStage_of_ne s _ heq]
        exact hended
  | removed => exact absurd hc (names_removeEntry _)
  | bound id hst hcall hentry =>
      obtain rfl := (names_bind hentry).mp hc
      rw [bind_stages hentry, setStage_of_ne s _ (Ne.symm hne)] at harmed
      have hfalse := hok id hcall hentry a (Ne.symm hne)
      rw [harmed] at hfalse
      cases hfalse

/-- Where no `bind` comes between another broker's `bind` and the `unlink` of its exit, exits
are safe. -/
theorem exit_safe (hs : Execution.Reachable (Execution.Guarded (Step h) BindsAlone) Init s) :
    s.ExitSafe := by
  have hinv : s.ExitInvariant := by
    refine Reachable.invariant ?_ (fun hI hok hstep => ExitInvariant.step hI hok hstep) hs
    intro entry
    exact ⟨fun b hb => absurd hb (names_start entry), fun a b _ hb => absurd hb (names_start entry)⟩
  intro a b hexit hb hne
  rw [hinv.alone a b (PathStage.armed_of_exiting hexit) hb hne]
  rfl

/-! ### The `unlink`s of the start-up -/

/-- The entry a start-up is about to unlink is not that of another live broker; and a broker
that has its listener and runs is the last that bound the path, and the path is its own. -/
structure StartupSafe (s : SocketPath) : Prop where
  unlink : ∀ a b, s.stages a = .unlinkStale ∨ s.stages a = .unlinkFailed → s.Names b → b ≠ a →
    (s.stages b).live = false
  named : ∀ b broker, s.stages b = .main broker → s.Names b ∧ s.binds.getLast? = some b

/-- The file that a second `lstat` recognizes is no live broker's, and no `bind` succeeds
between another start-up's second `lstat` and its `unlink`. -/
structure Undisturbed (s : SocketPath) (label : BrokerId × Call) : Prop where
  recognized : label.2 = .lstat false → ∀ e a, s.Recognizes label.1 e → e.binder = some a →
    (s.stages a).live = false
  bind : ∀ id, label.2 = .bind (some id) → s.entry = none →
    ∀ a, s.stages a ≠ .unlinkStale

structure StartupInvariant (s : SocketPath) : Prop where
  binder : s.BinderBound
  stale : ∀ a b, s.stages a = .unlinkStale → s.Names b → s.stages b = .ended
  named : ∀ b, (s.stages b).bound = true → s.Names b ∧ s.binds.getLast? = some b

theorem startupInvariant_start (entry : Option FileStatus) : (start entry).StartupInvariant where
  binder := fun _ hb => absurd hb (names_start entry)
  stale := fun _ _ _ hb => absurd hb (names_start entry)
  named := by
    intro b hbound
    cases hbound

theorem BinderBound.ended_of_dead (hs : s.BinderBound) (hb : s.Names b)
    (hdead : (s.stages b).live = false) : s.stages b = .ended := by
  rcases hs b hb with hbound | hended
  · rw [PathStage.live_of_bound hbound] at hdead
    cases hdead
  · exact hended

theorem StartupInvariant.step (hs : s.StartupInvariant) (hok : s.Undisturbed (b, call))
    (hstep : Stepped h s b call t) : t.StartupInvariant := by
  refine ⟨hs.binder.step hstep, ?_, ?_⟩
  · intro a c ha hc
    cases hstep with
    | @moved st hbound hkeep harm hend hunlink =>
        have hended : s.stages c = .ended := by
          by_cases heq : a = b
          · subst heq
            rw [setStage_self] at ha
            obtain ⟨e, hcall, hrecognizes⟩ := hunlink ha
            obtain ⟨e', he', hbinder⟩ := hc
            obtain rfl : e = e' := Option.some.inj (hrecognizes.1.symm.trans he')
            exact hs.binder.ended_of_dead ⟨e, he', hbinder⟩
              (hok.recognized hcall e c hrecognizes hbinder)
          · rw [setStage_of_ne s _ heq] at ha
            exact hs.stale a c ha hc
        by_cases heq : c = b
        · subst heq
          rw [setStage_self]
          exact hend hended
        · rw [setStage_of_ne s _ heq]
          exact hended
    | removed => exact absurd hc (names_removeEntry _)
    | bound id hst hcall hentry =>
        rw [bind_stages hentry] at ha
        by_cases heq : a = b
        · subst heq
          rw [setStage_self] at ha
          cases ha
        · rw [setStage_of_ne s _ heq] at ha
          exact absurd ha (hok.bind id hcall hentry a)
  · intro c hc
    cases hstep with
    | @moved st hbound hkeep harm hend hunlink =>
        have hold : (s.stages c).bound = true := by
          by_cases heq : c = b
          · subst heq
            rw [setStage_self] at hc
            exact hbound hc
          · rwa [setStage_of_ne s _ heq] at hc
        exact hs.named c hold
    | @removed st e hentry hst =>
        -- whoever unlinks is the only broker that has bound, or none has
        by_cases heq : c = b
        · subst heq
          change ((s.removeEntry.setStage c st).stages c).bound = true at hc
          rw [setStage_self] at hc
          rcases hst with ⟨-, rfl⟩ | ⟨-, rfl⟩
          · cases hc
          · cases hc
        · rw [setStage_of_ne _ _ heq] at hc
          have hnamed := (hs.named c hc).1
          rcases hst with ⟨hunlink, -⟩ | ⟨hbound, -⟩
          · have hended := hs.stale b c hunlink hnamed
            change (s.stages c).bound = true at hc
            rw [hended] at hc
            cases hc
          · exact absurd (hnamed.unique (hs.named b hbound).1) heq
    | bound id hst hcall hentry =>
        by_cases heq : c = b
        · subst heq
          refine ⟨(names_bind hentry).mpr rfl, ?_⟩
          rw [bind_binds hentry, List.getLast?_concat]
        · rw [bind_stages hentry, setStage_of_ne s _ heq] at hc
          obtain ⟨e, he, -⟩ := (hs.named c hc).1
          rw [hentry] at he
          cases he

theorem startup_safe (hs : Execution.Reachable (Execution.Guarded (Step h) Undisturbed) Init s) :
    s.StartupSafe := by
  have hinv : s.StartupInvariant :=
    Reachable.invariant startupInvariant_start
      (fun hI hok hstep => StartupInvariant.step hI hok hstep) hs
  constructor
  · rintro a b (hstale | hfailed) hb hne
    · rw [hinv.stale a b hstale hb]
      rfl
    · have hbound : (s.stages a).bound = true := by rw [hfailed]; rfl
      exact absurd (hb.unique (hinv.named a hbound).1) hne
  · intro b broker hst
    exact hinv.named b (by rw [hst]; rfl)

/-! ### Brokers that take the path from one another, and brokers that do not -/

/-- A run whose steps pass a test. -/
def runWhere (check : SocketPath → BrokerId × Call → Bool) (h : Host) (s : SocketPath) :
    List (BrokerId × Call) → Option SocketPath
  | [] => some s
  | label :: rest =>
      if check s label then (s.step h label.1 label.2).bind fun t => t.runWhere check h rest
      else none

theorem Stepped.others (hstep : Stepped h s b call t) (hne : a ≠ b) : t.stages a = s.stages a := by
  cases hstep with
  | moved => exact setStage_of_ne s _ hne
  | removed => exact setStage_of_ne s.removeEntry _ hne
  | bound id _ _ hentry =>
      rw [bind_stages hentry]
      exact setStage_of_ne s _ hne

/-- A test that implies the condition when only the brokers `ids` have started. -/
theorem guarded_of_runWhere {ok : SocketPath → BrokerId × Call → Prop}
    {check : SocketPath → BrokerId × Call → Bool} {ids : List BrokerId}
    (hcheck : ∀ s label, (∀ a, a ∉ ids → s.stages a = .absent) → check s label = true → ok s label)
    {labels : List (BrokerId × Call)} (hids : ∀ label ∈ labels, label.1 ∈ ids)
    (habsent : ∀ a, a ∉ ids → s.stages a = .absent) (hrun : s.runWhere check h labels = some t) :
    Execution.Run (Execution.Guarded (Step h) ok) s labels t := by
  induction labels generalizing s with
  | nil =>
      cases hrun
      exact .start
  | cons label rest ih =>
      unfold runWhere at hrun
      split at hrun
      · next htrue =>
          obtain ⟨u, hstep, hrest⟩ := Option.bind_eq_some_iff.mp hrun
          refine (ih (fun l hl => hids l (List.mem_cons_of_mem _ hl)) ?_ hrest).head
            ⟨hcheck s label habsent htrue, hstep⟩
          intro a ha
          have hne : a ≠ label.1 := by
            rintro rfl
            exact ha (hids label List.mem_cons_self)
          rw [(step_spec hstep).others hne]
          exact habsent a ha
      · cases hrun

theorem run_of_run {labels : List (BrokerId × Call)} (hrun : s.run h labels = some t) :
    Execution.Run (Step h) s labels t := by
  induction labels generalizing s with
  | nil =>
      cases hrun
      exact .start
  | cons label rest ih =>
      obtain ⟨u, hstep, hrest⟩ := Option.bind_eq_some_iff.mp hrun
      exact (ih hrest).head hstep

/-- Every broker gets the same limit. -/
def pageHost (limit : Nat) : Host := ⟨1000, fun _ => limit, fun _ => 3⟩

/-- A start-up on a free path. -/
def startUp (b : BrokerId) (ino : Nat) : List (BrokerId × Call) :=
  [(b, .start true), (b, .lstat false), (b, .bind (some (1, ino))), (b, .chmod true),
    (b, .listen true)]

/-- A start-up that finds a socket without a listener. -/
def takeOver (b : BrokerId) (ino : Nat) : List (BrokerId × Call) :=
  [(b, .start true), (b, .lstat false), (b, .connect .refused), (b, .lstat false),
    (b, .unlink false), (b, .bind (some (1, ino))), (b, .chmod true), (b, .listen true)]

def hungUp : Revents := { Revents.clear with pollhup := true }

/-- Broker 0 accepts one client, hears it, and so reaches its limit: the loop closes the
listener and goes on for that client. -/
def reachingLimit : List (BrokerId × Call) :=
  [.head true (.ready [Broker.readable]), .dispatch (Broker.answering []),
    .accept (Broker.accepting 4 0),
    .head true (.ready [.clear, Broker.readable]),
    .dispatch (Broker.answering Broker.pageRequest.encode), .dispatch (Broker.answering []),
    .accept Broker.acceptNone, .head true .interrupted].map fun i => (0, .main i)

/-- The last client goes, and broker 0 leaves its loop. -/
def draining : List (BrokerId × Call) :=
  [.head true (.ready [.clear, hungUp]), .dispatch (Broker.answering []),
    .dispatch (Broker.answering []), .accept Broker.acceptNone, .head true .interrupted,
    .leave].map fun i => (0, .main i)

/-- Broker 0 is told to stop, and leaves its loop. -/
def stopping : List (BrokerId × Call) :=
  [.signal, .head true .interrupted, .leave].map fun i => (0, .main i)

/-- What the path and the brokers 0 and 1 come to. -/
def outcome (s : SocketPath) : Option Entry × Bool × Bool :=
  (s.entry, (s.stages 0).exiting, (s.stages 1).live)

theorem drained_outcome : ((start none).run (pageHost 1)
    (startUp 0 7 ++ reachingLimit ++ takeOver 1 8 ++ draining)).map outcome =
      some (some ⟨⟨true, 1000, 1, 8⟩, some 1⟩, true, true) := by
  decide +kernel

theorem stopped_outcome : ((start none).run (pageHost 0)
    (startUp 0 7 ++ stopping ++ takeOver 1 8)).map outcome =
      some (some ⟨⟨true, 1000, 1, 8⟩, some 1⟩, true, true) := by
  decide +kernel

theorem not_exitSafe_of_outcome {e : Entry}
    (hs : s.outcome = (some e, true, true)) (hbinder : e.binder = some 1) : ¬ s.ExitSafe := by
  intro hsafe
  simp only [outcome, Prod.mk.injEq] at hs
  obtain ⟨hentry, hexit, hlive⟩ := hs
  have hdead := hsafe 0 1 hexit ⟨e, hentry, hbinder⟩ (by decide)
  rw [hlive] at hdead
  cases hdead

/-- A broker that closed its listener, at its limit or on its way out, removes the socket of
its successor. -/
theorem exit_unsafe :
    (∃ s, (start none).run (pageHost 1)
        (startUp 0 7 ++ reachingLimit ++ takeOver 1 8 ++ draining) = some s ∧
          Reachable (pageHost 1) s ∧ ¬ s.ExitSafe) ∧
      ∃ s, (start none).run (pageHost 0) (startUp 0 7 ++ stopping ++ takeOver 1 8) = some s ∧
        Reachable (pageHost 0) s ∧ ¬ s.ExitSafe := by
  have hbroken : ∀ {h labels}, ((start none).run h labels).map outcome =
      some (some ⟨⟨true, 1000, 1, 8⟩, some 1⟩, true, true) →
      ∃ s, (start none).run h labels = some s ∧ Reachable h s ∧ ¬ s.ExitSafe := by
    intro h labels houtcome
    obtain ⟨s, hrun, hs⟩ := Option.map_eq_some_iff.mp houtcome
    exact ⟨s, hrun, ⟨_, _, ⟨none, rfl⟩, run_of_run hrun⟩, not_exitSafe_of_outcome hs rfl⟩
  exact ⟨hbroken drained_outcome, hbroken stopped_outcome⟩

/-- A start-up that finds a live listener. -/
def turnedAway (b : BrokerId) : List (BrokerId × Call) :=
  [(b, .start true), (b, .lstat false), (b, .connect .connected)]

def bindsAloneTest (ids : List BrokerId) (s : SocketPath) (label : BrokerId × Call) : Bool :=
  match label.2 with
  | .bind (some _) => ids.all fun a => a == label.1 || !(s.stages a).armed
  | _ => true

theorem bindsAlone_of_test {ids : List BrokerId} (s : SocketPath) (label : BrokerId × Call)
    (habsent : ∀ a, a ∉ ids → s.stages a = .absent) (htest : bindsAloneTest ids s label = true) :
    s.BindsAlone label := by
  intro id hcall hentry a hne
  by_cases ha : a ∈ ids
  · simp only [bindsAloneTest, hcall, List.all_eq_true, Bool.or_eq_true, beq_iff_eq,
      Bool.not_eq_true'] at htest
    exact (htest a ha).resolve_left hne
  · rw [habsent a ha]
    rfl

theorem exit_safe_of_one : ∃ s, (start none).runWhere (bindsAloneTest [0, 1]) (pageHost 1)
      (startUp 0 7 ++ reachingLimit ++ draining ++ [(0, .unlink false)] ++ startUp 1 8) = some s ∧
    (s.stages 1).live = true ∧ s.ExitSafe := by
  have hlive : ((start none).runWhere (bindsAloneTest [0, 1]) (pageHost 1)
      (startUp 0 7 ++ reachingLimit ++ draining ++ [(0, .unlink false)] ++ startUp 1 8)).map
        (fun s => (s.stages 1).live) = some true := by decide +kernel
  obtain ⟨s, hrun, hs⟩ := Option.map_eq_some_iff.mp hlive
  refine ⟨s, hrun, hs, exit_safe ⟨_, _, ⟨none, rfl⟩, guarded_of_runWhere bindsAlone_of_test ?_
    (fun _ _ => rfl) hrun⟩⟩
  decide

def stale : FileStatus := ⟨true, 1000, 1, 5⟩

/-- Broker 0 has recognized the stale socket and is about to unlink it. -/
def recognizing : List (BrokerId × Call) :=
  [(0, .start true), (0, .lstat false), (0, .connect .refused), (0, .lstat false)]

/-- Broker 0 goes on. -/
def goingOn : List (BrokerId × Call) :=
  [(0, .unlink false), (0, .bind (some (1, 9))), (0, .chmod true), (0, .listen true)]

theorem racing_outcome : ((start (some stale)).run (pageHost 0)
    (recognizing ++ takeOver 1 8)).map (fun s => (s.entry, s.stages 0 matches .unlinkStale,
      (s.stages 1).live)) = some (some ⟨⟨true, 1000, 1, 8⟩, some 1⟩, true, true) := by
  decide +kernel

theorem orphaned_outcome : ((start (some stale)).run (pageHost 0)
    (recognizing ++ takeOver 1 8 ++ goingOn)).map (fun s => (s.entry, (s.stages 0).listening,
      (s.stages 1).listening)) = some (some ⟨⟨true, 1000, 1, 9⟩, some 0⟩, true, true) := by
  decide +kernel

/-- Of two brokers that recover one stale socket the slower removes the other's, and then both
have a listener. -/
theorem startup_unsafe :
    (∃ s, (start (some stale)).run (pageHost 0) (recognizing ++ takeOver 1 8) = some s ∧
        Reachable (pageHost 0) s ∧ ¬ s.StartupSafe) ∧
      ∃ s, (start (some stale)).run (pageHost 0) (recognizing ++ takeOver 1 8 ++ goingOn) = some s ∧
        Reachable (pageHost 0) s ∧ (s.stages 0).listening = true ∧ (s.stages 1).listening = true ∧
          ¬ s.StartupSafe := by
  constructor
  · obtain ⟨s, hrun, hs⟩ := Option.map_eq_some_iff.mp racing_outcome
    simp only [Prod.mk.injEq] at hs
    obtain ⟨hentry, hstale, hlive⟩ := hs
    refine ⟨s, hrun, ⟨_, _, ⟨_, rfl⟩, run_of_run hrun⟩, fun hsafe => ?_⟩
    have hunlink : s.stages 0 = .unlinkStale := by
      cases hst : s.stages 0 <;> rw [hst] at hstale <;> first | rfl | cases hstale
    have hdead := hsafe.unlink 0 1 (.inl hunlink) ⟨_, hentry, rfl⟩ (by decide)
    rw [hlive] at hdead
    cases hdead
  · obtain ⟨s, hrun, hs⟩ := Option.map_eq_some_iff.mp orphaned_outcome
    simp only [Prod.mk.injEq] at hs
    obtain ⟨hentry, hfirst, hsecond⟩ := hs
    refine ⟨s, hrun, ⟨_, _, ⟨_, rfl⟩, run_of_run hrun⟩, hfirst, hsecond, fun hsafe => ?_⟩
    obtain ⟨broker, hmain⟩ : ∃ broker, s.stages 1 = .main broker := by
      cases hst : s.stages 1 <;> rw [hst] at hsecond <;> first | exact ⟨_, rfl⟩ | cases hsecond
    have hzero : s.Names 0 := ⟨_, hentry, rfl⟩
    exact absurd (hzero.unique (hsafe.named 1 broker hmain).1) (by decide)

def undisturbedTest (ids : List BrokerId) (s : SocketPath) (label : BrokerId × Call) : Bool :=
  match label.2 with
  | .lstat false =>
      !(s.stages label.1 matches .lstatCurrent _) ||
        s.entry.all fun e => e.binder.all fun a => !(s.stages a).live
  | .bind (some _) => ids.all fun a => !(s.stages a matches .unlinkStale)
  | _ => true

theorem undisturbed_of_test {ids : List BrokerId} (s : SocketPath) (label : BrokerId × Call)
    (habsent : ∀ a, a ∉ ids → s.stages a = .absent) (htest : undisturbedTest ids s label = true) :
    s.Undisturbed label := by
  constructor
  · intro hcall e a hrecognizes hbinder
    obtain ⟨hentry, initialStatus, hst, -⟩ := hrecognizes
    simpa [undisturbedTest, hcall, hst, hentry, hbinder] using htest
  · intro id hcall hentry a hstale
    by_cases ha : a ∈ ids
    · simp only [undisturbedTest, hcall, List.all_eq_true] at htest
      have hno := htest a ha
      rw [hstale] at hno
      cases hno
    · rw [habsent a ha] at hstale
      cases hstale

theorem startup_safe_of_two : ∃ s, (start (some stale)).runWhere (undisturbedTest [0, 1]) (pageHost 0)
      (takeOver 0 7 ++ turnedAway 1) = some s ∧ (s.stages 0).listening = true ∧ s.StartupSafe := by
  have hlistening : ((start (some stale)).runWhere (undisturbedTest [0, 1]) (pageHost 0)
      (takeOver 0 7 ++ turnedAway 1)).map (fun s => (s.stages 0).listening) = some true := by
    decide +kernel
  obtain ⟨s, hrun, hs⟩ := Option.map_eq_some_iff.mp hlistening
  refine ⟨s, hrun, hs, startup_safe ⟨_, _, ⟨_, rfl⟩, guarded_of_runWhere undisturbed_of_test ?_
    (fun _ _ => rfl) hrun⟩⟩
  decide

end SocketPath

end Hyperglyph
