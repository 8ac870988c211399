import Mathlib.Logic.Function.Basic
import Hyperglyph.Broker.MainLoop

/-! Brokers of one user on one socket path: `ahe_broker_remove_stale_socket`,
`ahe_broker_create_listener` and the last `unlink` of `main`, one system call and the code up
to the next one at a time. In between any other broker may make its own calls. -/
namespace Hyperglyph

abbrev BrokerId := Nat

/-- What `lstat` tells. -/
structure FileStatus where
  isSocket : Bool
  uid : Nat
  dev : Nat
  ino : Nat
  deriving DecidableEq

/-- The directory entry at the path, and the broker whose socket it is. -/
structure Entry where
  status : FileStatus
  binder : Option BrokerId
  deriving DecidableEq

inductive LstatResult
  | missing
  | failed
  | found (status : FileStatus)
  deriving DecidableEq

/-- How the probe's `connect` ends; `pending` is `EINPROGRESS`, `EAGAIN` or `EALREADY`. A
probe socket that could not be made counts as `failed`. -/
inductive ConnectResult
  | connected
  | pending
  | missing
  | refused
  | failed
  deriving DecidableEq

/-- The call a broker makes next. In `main` the listener was returned; the broker that has
returned from its loop still has to unlink the path. -/
inductive PathStage
  | absent
  | lstatInitial
  | connectProbe (initialStatus : FileStatus)
  | lstatCurrent (initialStatus : FileStatus)
  | unlinkStale
  | bind
  | chmod
  | listen
  | closeFailed
  | unlinkFailed
  | main (b : Broker)
  | ended

/-- What the brokers of one user have in common, and what each is given. -/
structure Host where
  effectiveUid : Nat
  maxClients : BrokerId → Nat
  listenerFd : BrokerId → Nat

namespace PathStage

/-! ### `ahe_broker_remove_stale_socket` after each of its calls

`ended` is the failing return, with which `main` ends; `bind` is the return of zero. -/

def afterInitial (effectiveUid : Nat) : LstatResult → PathStage
  | .missing => .bind
  | .failed => .ended
  | .found status =>
      if !status.isSocket ∨ status.uid ≠ effectiveUid then .ended else .connectProbe status

def afterProbe (initialStatus : FileStatus) : ConnectResult → PathStage
  | .connected | .pending => .ended
  | .missing => .bind
  | .refused => .lstatCurrent initialStatus
  | .failed => .ended

def afterCurrent (effectiveUid : Nat) (initialStatus : FileStatus) : LstatResult → PathStage
  | .missing => .bind
  | .failed => .ended
  | .found status =>
      if !status.isSocket ∨ status.uid ≠ effectiveUid ∨ status.dev ≠ initialStatus.dev ∨
          status.ino ≠ initialStatus.ino then .ended
      else .unlinkStale

def live : PathStage → Bool
  | .absent | .ended => false
  | _ => true

/-- The broker has bound the path and lives. -/
def bound : PathStage → Bool
  | .chmod | .listen | .closeFailed | .unlinkFailed | .main _ => true
  | _ => false

/-- The broker has bound the path and can still come to the `unlink` of its exit. -/
def armed : PathStage → Bool
  | .chmod | .listen | .main _ => true
  | _ => false

/-- The broker has left its loop and closed its listener; the `unlink` is its next call. -/
def exiting : PathStage → Bool
  | .main b => b.pc == .returned
  | _ => false

/-- The broker's listener accepts connections. -/
def listening : PathStage → Bool
  | .main b => decide (0 ≤ b.listenerFd)
  | _ => false

theorem bound_of_armed {st : PathStage} (h : st.armed = true) : st.bound = true := by
  cases st <;> first | rfl | cases h

theorem live_of_bound {st : PathStage} (h : st.bound = true) : st.live = true := by
  cases st <;> first | rfl | cases h

theorem armed_of_exiting {st : PathStage} (h : st.exiting = true) : st.armed = true := by
  cases st <;> first | rfl | cases h

end PathStage

structure SocketPath where
  entry : Option Entry
  stages : BrokerId → PathStage
  /-- The brokers whose `bind` succeeded, in this order. -/
  binds : List BrokerId

/-- A call, with the part of its outcome the path does not decide. -/
inductive Call
  | start (prepared : Bool)
  | lstat (failed : Bool)
  | connect (result : ConnectResult)
  | unlink (failed : Bool)
  | bind (made : Option (Nat × Nat))
  | chmod (done : Bool)
  | listen (done : Bool)
  | close
  | main (i : Input)
  | kill

namespace SocketPath

def setStage (s : SocketPath) (b : BrokerId) (st : PathStage) : SocketPath :=
  { s with stages := Function.update s.stages b st }

def removeEntry (s : SocketPath) : SocketPath := { s with entry := none }

def lstat (s : SocketPath) (failed : Bool) : LstatResult :=
  if failed then .failed
  else
    match s.entry with
    | some e => .found e.status
    | none => .missing

/-- The socket at the path has a listener. Of a socket no broker bound anything is possible. -/
def mayAccept (s : SocketPath) (e : Entry) : Bool :=
  e.status.isSocket && e.binder.all fun b => (s.stages b).listening

def mayRefuse (s : SocketPath) (e : Entry) : Bool :=
  e.binder.all fun b => !(s.stages b).listening

/-- `connect` can end like this. -/
def mayConnect (s : SocketPath) : ConnectResult → Bool
  | .connected | .pending => s.entry.any s.mayAccept
  | .missing => s.entry.isNone
  | .refused => s.entry.any s.mayRefuse
  | .failed => true

/-- `unlink` and what follows, when it succeeded and when it did not. -/
def unlink (s : SocketPath) (b : BrokerId) (failed : Bool) (done otherwise : PathStage) : SocketPath :=
  if failed ∨ s.entry = none then s.setStage b otherwise else s.removeEntry.setStage b done

/-- `bind` needs a free name; the kernel chooses the inode. -/
def bind (h : Host) (s : SocketPath) (b : BrokerId) (made : Option (Nat × Nat)) : SocketPath :=
  match s.entry, made with
  | none, some (dev, ino) =>
      { s.setStage b .chmod with
        entry := some ⟨⟨true, h.effectiveUid, dev, ino⟩, some b⟩
        binds := s.binds ++ [b] }
  | _, _ => s.setStage b .ended

/-- The call `call` of the broker `b`, if that is its next one and can end so. -/
def step (h : Host) (s : SocketPath) (b : BrokerId) (call : Call) : Option SocketPath :=
  match s.stages b, call with
  | .absent, .start prepared => some (s.setStage b (if prepared then .lstatInitial else .ended))
  | .lstatInitial, .lstat failed =>
      some (s.setStage b (.afterInitial h.effectiveUid (s.lstat failed)))
  | .connectProbe initialStatus, .connect result =>
      if s.mayConnect result then some (s.setStage b (.afterProbe initialStatus result)) else none
  | .lstatCurrent initialStatus, .lstat failed =>
      some (s.setStage b (.afterCurrent h.effectiveUid initialStatus (s.lstat failed)))
  | .unlinkStale, .unlink failed => some (s.unlink b failed .bind .ended)
  | .bind, .bind made => some (s.bind h b made)
  | .chmod, .chmod done =>
      some (s.setStage b (if done && s.entry.isSome then .listen else .closeFailed))
  | .listen, .listen done =>
      some (s.setStage b
        (if done then .main (.start (h.maxClients b) (h.listenerFd b)) else .closeFailed))
  | .closeFailed, .close => some (s.setStage b .unlinkFailed)
  | .unlinkFailed, .unlink failed => some (s.unlink b failed .ended .ended)
  | .main broker, .main i => some (s.setStage b (.main (broker.step i)))
  | .main broker, .unlink failed =>
      if broker.pc = .returned then some (s.unlink b failed .ended .ended) else none
  | _, .kill => some (s.setStage b .ended)
  | _, _ => none

def Step (h : Host) (s : SocketPath) (label : BrokerId × Call) (t : SocketPath) : Prop :=
  s.step h label.1 label.2 = some t

/-- No broker has started; whatever is at the path is none of theirs. -/
def start (entry : Option FileStatus) : SocketPath where
  entry := entry.map fun status => ⟨status, none⟩
  stages := fun _ => .absent
  binds := []

def Init (s : SocketPath) : Prop := ∃ entry, s = start entry

def Reachable (h : Host) (s : SocketPath) : Prop := Execution.Reachable (Step h) Init s

def run (h : Host) (s : SocketPath) : List (BrokerId × Call) → Option SocketPath
  | [] => some s
  | (b, call) :: rest => (s.step h b call).bind fun t => t.run h rest

/-! ### What a call can do -/

/-- The second `lstat` of `b` finds the file of the first. -/
def Recognizes (s : SocketPath) (b : BrokerId) (e : Entry) : Prop :=
  s.entry = some e ∧ ∃ initialStatus, s.stages b = .lstatCurrent initialStatus ∧
    e.status.dev = initialStatus.dev ∧ e.status.ino = initialStatus.ino

/-- A step of `b`: the entry stays, or goes, or is made. -/
inductive Stepped (h : Host) (s : SocketPath) (b : BrokerId) (call : Call) : SocketPath → Prop
  | moved {st : PathStage} : (st.bound = true → (s.stages b).bound = true) →
      ((s.stages b).bound = true → st.bound = true ∨ st = .ended) →
      (st.armed = true → (s.stages b).armed = true) →
      (s.stages b = .ended → st = .ended) →
      (st = .unlinkStale → ∃ e, call = .lstat false ∧ s.Recognizes b e) →
      Stepped h s b call (s.setStage b st)
  | removed {st : PathStage} {e : Entry} : s.entry = some e →
      (s.stages b = .unlinkStale ∧ st = .bind) ∨ ((s.stages b).bound = true ∧ st = .ended) →
      Stepped h s b call (s.removeEntry.setStage b st)
  | bound (id : Nat × Nat) : s.stages b = .bind → call = .bind (some id) → s.entry = none →
      Stepped h s b call (s.bind h b (some id))

variable {h : Host} {s t : SocketPath} {b : BrokerId} {call : Call}

theorem afterInitial_quiet (effectiveUid : Nat) (r : LstatResult) :
    (PathStage.afterInitial effectiveUid r).bound = false ∧
      PathStage.afterInitial effectiveUid r ≠ .unlinkStale := by
  cases r with
  | missing | failed => exact ⟨rfl, PathStage.noConfusion⟩
  | found status =>
      simp only [PathStage.afterInitial]
      split <;> exact ⟨rfl, PathStage.noConfusion⟩

theorem afterProbe_quiet (initialStatus : FileStatus) (r : ConnectResult) :
    (PathStage.afterProbe initialStatus r).bound = false ∧
      PathStage.afterProbe initialStatus r ≠ .unlinkStale := by
  cases r <;> exact ⟨rfl, PathStage.noConfusion⟩

theorem afterCurrent_bound (effectiveUid : Nat) (initialStatus : FileStatus) (r : LstatResult) :
    (PathStage.afterCurrent effectiveUid initialStatus r).bound = false := by
  cases r with
  | missing | failed => rfl
  | found status =>
      simp only [PathStage.afterCurrent]
      split <;> rfl

theorem afterCurrent_unlinkStale {effectiveUid : Nat} {initialStatus : FileStatus} {failed : Bool}
    (hst : s.stages b = .lstatCurrent initialStatus)
    (hunlink : PathStage.afterCurrent effectiveUid initialStatus (s.lstat failed) = .unlinkStale) :
    failed = false ∧ ∃ e, s.Recognizes b e := by
  cases failed with
  | true => cases hunlink
  | false =>
      refine ⟨rfl, ?_⟩
      simp only [lstat, Bool.false_eq_true, if_false] at hunlink
      cases hentry : s.entry with
      | none =>
          rw [hentry] at hunlink
          cases hunlink
      | some e =>
          rw [hentry] at hunlink
          simp only [PathStage.afterCurrent] at hunlink
          split at hunlink
          · cases hunlink
          · next hsame =>
              simp only [not_or, not_not] at hsame
              exact ⟨e, hentry, initialStatus, hst, hsame.2.2.1, hsame.2.2.2⟩

/-- A move between two stages neither of which has bound. -/
theorem Stepped.quiet {st : PathStage} (hold : (s.stages b).bound = false) (hnew : st.bound = false)
    (hended : s.stages b = .ended → st = .ended)
    (hunlink : st = .unlinkStale → ∃ e, call = .lstat false ∧ s.Recognizes b e) :
    Stepped h s b call (s.setStage b st) := by
  refine .moved ?_ ?_ ?_ hended hunlink
  · intro hbound
    rw [hnew] at hbound
    cases hbound
  · intro hbound
    rw [hold] at hbound
    cases hbound
  · intro harmed
    rw [PathStage.bound_of_armed harmed] at hnew
    cases hnew

theorem Stepped.unlink {failed : Bool} {done : PathStage}
    (hst : (s.stages b = .unlinkStale ∧ done = .bind) ∨
      ((s.stages b).bound = true ∧ done = .ended)) :
    Stepped h s b call (s.unlink b failed done .ended) := by
  unfold SocketPath.unlink
  split
  · refine .moved (fun hb => ?_) (fun _ => .inr rfl) (fun ha => ?_) (fun _ => rfl) (fun hu => ?_)
    · cases hb
    · cases ha
    · cases hu
  · next hdone =>
      obtain ⟨e, he⟩ := Option.ne_none_iff_exists'.mp fun hnone => hdone (.inr hnone)
      exact .removed he hst

/-- A move of a broker that has bound, to a stage in which it still has. -/
theorem Stepped.settled {st : PathStage} (hold : (s.stages b).bound = true) (hnew : st.bound = true)
    (harmed : st.armed = true → (s.stages b).armed = true) :
    Stepped h s b call (s.setStage b st) := by
  refine .moved (fun _ => hold) (fun _ => .inl hnew) harmed ?_ ?_
  · intro hend
    rw [hend] at hold
    cases hold
  · rintro rfl
    cases hnew

theorem Stepped.bind {made : Option (Nat × Nat)} (hst : s.stages b = .bind) :
    Stepped h s b (.bind made) (s.bind h b made) := by
  have hquiet : Stepped h s b (.bind made) (s.setStage b .ended) := by
    refine .quiet (by rw [hst]; rfl) rfl (fun _ => rfl) ?_
    intro hu
    cases hu
  cases hentry : s.entry with
  | some e => simpa only [SocketPath.bind, hentry] using hquiet
  | none =>
      cases made with
      | none => simpa only [SocketPath.bind, hentry] using hquiet
      | some id => exact .bound id hst rfl hentry

/-- The inversion theorem for calls. -/
theorem step_spec (hstep : s.step h b call = some t) : Stepped h s b call t := by
  unfold step at hstep
  split at hstep
  · next prepared hst =>
      cases hstep
      refine .quiet (by rw [hst]; rfl) ?_ (fun hend => ?_) ?_
      · split <;> rfl
      · rw [hst] at hend
        cases hend
      · intro hu
        split at hu <;> cases hu
  · next failed hst =>
      cases hstep
      obtain ⟨hbound, hunlink⟩ := afterInitial_quiet h.effectiveUid (s.lstat failed)
      refine .quiet (by rw [hst]; rfl) hbound (fun hend => ?_) (fun hu => absurd hu hunlink)
      rw [hst] at hend
      cases hend
  · next initialStatus result hst =>
      split at hstep
      · cases hstep
        obtain ⟨hbound, hunlink⟩ := afterProbe_quiet initialStatus result
        refine .quiet (by rw [hst]; rfl) hbound (fun hend => ?_) (fun hu => absurd hu hunlink)
        rw [hst] at hend
        cases hend
      · cases hstep
  · next initialStatus failed hst =>
      cases hstep
      refine .quiet (by rw [hst]; rfl) (afterCurrent_bound _ _ _) (fun hend => ?_) (fun hu => ?_)
      · rw [hst] at hend
        cases hend
      · obtain ⟨rfl, e, he⟩ := afterCurrent_unlinkStale hst hu
        exact ⟨e, rfl, he⟩
  · next failed hst =>
      cases hstep
      exact .unlink (.inl ⟨hst, rfl⟩)
  · next made hst =>
      cases hstep
      exact .bind hst
  · next done hst =>
      cases hstep
      refine .settled (by rw [hst]; rfl) ?_ (fun _ => by rw [hst]; rfl)
      split <;> rfl
  · next done hst =>
      cases hstep
      refine .settled (by rw [hst]; rfl) ?_ (fun _ => by rw [hst]; rfl)
      split <;> rfl
  · next hst =>
      cases hstep
      refine .settled (by rw [hst]; rfl) rfl ?_
      intro harmed
      cases harmed
  · next failed hst =>
      cases hstep
      exact .unlink (.inr ⟨by rw [hst]; rfl, rfl⟩)
  · next broker i hst =>
      cases hstep
      exact .settled (by rw [hst]; rfl) rfl (fun _ => by rw [hst]; rfl)
  · next broker failed hst =>
      split at hstep
      · cases hstep
        exact .unlink (.inr ⟨by rw [hst]; rfl, rfl⟩)
      · cases hstep
  · cases hstep
    refine .moved (fun hb => ?_) (fun _ => .inr rfl) (fun ha => ?_) (fun _ => rfl) (fun hu => ?_)
    · cases hb
    · cases ha
    · cases hu
  · cases hstep

end SocketPath

end Hyperglyph
