import Hyperglyph.Client.Lifetime
import Hyperglyph.Deployment.Possession
import Hyperglyph.Library.RecordLock

/-! The processes of a deployment and the kernel's record locks. A process that is up asks for
the first byte of the lock memfd it was given, and loses what it has when it closes that memfd
or dies. -/
namespace Hyperglyph

open RecordLock

/-- What `fcntl` is asked for. -/
def LockType.kind : LockType → Option Kind
  | .write => some .exclusive
  | .unlock => none

/-- Where a process stands to the lock: between `zend_shared_alloc_lock` and
`zend_shared_alloc_unlock`, outside of them, or outside with an unlock the kernel refused. -/
inductive LockStage
  | outside | inside | stuck
  deriving DecidableEq

/-- Where a process stands after the call. -/
def LockType.reached : LockType → LockStage
  | .write => .inside
  | .unlock => .outside

structure LockedDeployment where
  deployment : Deployment
  locks : Table ConnId Object
  stage : ConnId → LockStage

namespace LockedDeployment

inductive Label
  | deployment (label : Deployment.Label)
  | lock (c : ConnId) (granted : Bool)
  | unlock (c : ConnId) (granted : Bool)

def start (maxClients listenerFd : Nat) : LockedDeployment where
  deployment := .start maxClients listenerFd
  locks := .empty
  stage := fun _ => .outside

def participant (s : LockedDeployment) (c : ConnId) : Participant := s.deployment.participants c

/-- The objects whose descriptors the process closed on the way from `x` to `x'`. -/
def closedSince (x x' : Participant) : List Object :=
  x'.process.closed.drop x.process.closed.length

/-- What the kernel takes back in a step. -/
def release (s : LockedDeployment) (d : Deployment) : Deployment.Label → Table ConnId Object
  | .broker _ => s.locks
  | .participant c .crash => s.locks.exit c
  | .participant c _ => s.locks.close c (closedSince (s.participant c) (d.participants c))

/-- The kernel's part of a lock call that it granted. -/
def record (s : LockedDeployment) (c : ConnId) (type : LockType) : Table ConnId Object :=
  match (s.participant c).process.fds.get (s.participant c).client.lockFd with
  | some file => s.locks.set c file 0 1 type.kind
  | none => s.locks

/-- `ahe_lock` or `ahe_unlock`, and what `zend_shared_alloc.c` makes of it. -/
def call (s : LockedDeployment) (c : ConnId) (type : LockType) (result : Process × Bool)
    (failed : LockStage) : LockedDeployment where
  deployment :=
    { s.deployment with
      participants := Function.update s.deployment.participants c
        { s.participant c with process := result.1 } }
  locks := if result.2 then s.record c type else s.locks
  stage := Function.update s.stage c (if result.2 then type.reached else failed)

def step (config : ConnId → Config) (s : LockedDeployment) : Label → Option LockedDeployment
  | .deployment label =>
      (s.deployment.step config label).map fun d =>
        { s with deployment := d, locks := s.release d label }
  | .lock c granted =>
      let x := s.participant c
      some (s.call c .write (brokerClientLock x.process x.client fun _ _ => granted)
        (s.stage c))
  | .unlock c granted =>
      let x := s.participant c
      some (s.call c .unlock (brokerClientUnlock x.process x.client fun _ _ => granted)
        .stuck)

/-- The process runs code of its own. -/
def awake (s : LockedDeployment) (c : ConnId) : Prop :=
  (s.participant c).pc = .running ∨ (s.participant c).pc = .settled

/-- The kernel grants a lock only when nobody is in its way, and `zend_shared_alloc.c` neither
locks twice nor unlocks what it has not locked. -/
def Permitted (s : LockedDeployment) : Label → Prop
  | .deployment _ => True
  | .lock c granted => s.awake c ∧ s.stage c ≠ .inside ∧ (granted = true → ∀ file,
      (s.participant c).process.fds.get (s.participant c).client.lockFd = some file →
        s.locks.Grantable c file 0 1 LockType.write.kind)
  | .unlock c _ => s.awake c ∧ s.stage c = .inside

def Step (config : ConnId → Config) (s : LockedDeployment) (label : Label)
    (t : LockedDeployment) : Prop := s.step config label = some t

def Init (s : LockedDeployment) : Prop := ∃ maxClients listenerFd, s = start maxClients listenerFd

def Reachable (config : ConnId → Config) (s : LockedDeployment) : Prop :=
  Execution.Reachable (Execution.Guarded (Step config) Permitted) Init s

/-- The process has the memory of this cache. -/
def Uses (s : LockedDeployment) (c : ConnId) (cache : Object) : Prop :=
  (s.participant c).pc.up = true ∧
    (s.participant c).process.fds.get (s.participant c).client.cacheFd = some cache

/-! ### One lock call -/

section Calls

variable {config : ConnId → Config} {s t : LockedDeployment} {c : ConnId} {file : Object}

/-- On an open descriptor a lock call is the kernel's answer and nothing else. -/
theorem brokerClientSetLock_eq {p : Process} {client : BrokerClient}
    (h : p.fds.get client.lockFd = some file) (type : LockType) (command : LockCommand)
    (answer : LockType → LockCommand → Bool) :
    brokerClientSetLock p client type command answer = (p, answer type command) := by
  have hopen : ¬ client.lockFd < 0 := by
    intro hneg
    rw [DescriptorTable.get_neg hneg] at h
    cases h
  unfold brokerClientSetLock Process.fcntl
  rw [if_neg hopen, h]

theorem call_eq (h : (s.participant c).process.fds.get (s.participant c).client.lockFd = some file)
    (type : LockType) (granted : Bool) (failed : LockStage) :
    s.call c type ((s.participant c).process, granted) failed =
      ⟨s.deployment, if granted then s.locks.set c file 0 1 type.kind else s.locks,
        Function.update s.stage c (if granted then type.reached else failed)⟩ := by
  simp only [call, record, h]
  simp only [participant, Function.update_eq_self]

theorem awake.up (h : s.awake c) : (s.participant c).pc.up = true := by
  rcases h with hpc | hpc <;> rw [hpc] <;> rfl

end Calls

/-! ### Every reachable state -/

/-- The locks are those of the processes between the two calls, each on the memfd its process
was given. -/
structure Ordered (config : ConnId → Config) (s : LockedDeployment) : Prop where
  reachable : Deployment.Reachable config s.deployment
  sound : s.locks.Sound
  held : ∀ c o n kind, s.locks.lock c o n = some kind → (s.participant c).pc.up = true ∧
    s.stage c ≠ .outside ∧ n = 0 ∧
      (s.participant c).process.fds.get (s.participant c).client.lockFd = some o
  holds : ∀ c o, (s.participant c).pc.up = true → s.stage c ≠ .outside →
    (s.participant c).process.fds.get (s.participant c).client.lockFd = some o →
      s.locks.lock c o 0 = some .exclusive
  after : ∀ c, s.stage c ≠ .outside → (s.participant c).pc.up = true ∨ (s.participant c).pc = .ended

variable {config : ConnId → Config} {s t : LockedDeployment} {c c' : ConnId}

theorem ordered_start (maxClients listenerFd : Nat) :
    (start maxClients listenerFd).Ordered config where
  reachable := Deployment.reachable_start maxClients listenerFd
  sound := Table.sound_empty
  held := by simp [start, Table.empty]
  holds := by simp [start]
  after := by simp [start]

/-- The memfds of a process that is up. -/
theorem Ordered.owns (h : s.Ordered config) (hup : (s.participant c).pc.up = true) :
    ∃ p, (s.participant c).Owns p :=
  (h.reachable.possessed c hup).owns

/-- A lock call keeps the order, whether the kernel grants it or not. -/
theorem Ordered.call (h : s.Ordered config) {file : Object} {type : LockType} {granted : Bool}
    {failed : LockStage} (hup : (s.participant c).pc.up = true)
    (hfile : (s.participant c).process.fds.get (s.participant c).client.lockFd = some file)
    (hgrant : granted = true → s.locks.Grantable c file 0 1 type.kind)
    (hfailed : failed = .outside ↔ s.stage c = .outside) :
    (s.call c type ((s.participant c).process, granted) failed).Ordered config := by
  rw [call_eq hfile]
  cases granted with
  | false =>
      have hstage : ∀ c', Function.update s.stage c failed c' ≠ .outside ↔
          s.stage c' ≠ .outside := by
        intro c'
        by_cases heq : c' = c
        · subst heq
          rw [Function.update_self]
          exact not_congr hfailed
        · rw [Function.update_of_ne heq]
      refine ⟨h.reachable, h.sound, ?_, ?_, ?_⟩
      · intro c' o n kind hlock
        obtain ⟨hup', hstage', hrest⟩ := h.held c' o n kind hlock
        exact ⟨hup', (hstage c').mpr hstage', hrest⟩
      · exact fun c' o hup' hstage' => h.holds c' o hup' ((hstage c').mp hstage')
      · exact fun c' hstage' => h.after c' ((hstage c').mp hstage')
  | true =>
      simp only [if_true]
      -- whatever the process had locked before was this byte
      have hsame : ∀ {o n kind}, s.locks.lock c o n = some kind → o = file ∧ n = 0 := by
        intro o n kind hlock
        obtain ⟨-, -, hn, ho⟩ := h.held c o n kind hlock
        exact ⟨Option.some_inj.mp (ho.symm.trans hfile), hn⟩
      refine ⟨h.reachable, h.sound.set (hgrant rfl), ?_, ?_, ?_⟩
      · intro c' o n kind hlock
        by_cases heq : c' = c
        · subst heq
          rw [Table.set_self] at hlock
          split at hlock
          · next hbyte =>
              obtain ⟨rfl, rfl⟩ := hbyte
              cases type with
              | write => exact ⟨hup, by simp [LockType.reached], rfl, hfile⟩
              | unlock => cases hlock
          · next hother => exact absurd (hsame hlock) hother
        · rw [Table.set_of_ne heq] at hlock
          dsimp only
          rw [Function.update_of_ne heq]
          exact h.held c' o n kind hlock
      · intro c' o hup' hstage' ho
        dsimp only at hstage' ⊢
        by_cases heq : c' = c
        · subst heq
          obtain rfl : o = file := Option.some_inj.mp (ho.symm.trans hfile)
          rw [Function.update_self] at hstage'
          rw [Table.set_self, if_pos ⟨rfl, rfl⟩]
          cases type with
          | write => rfl
          | unlock => exact absurd rfl hstage'
        · rw [Function.update_of_ne heq] at hstage'
          rw [Table.set_of_ne heq]
          exact h.holds c' o hup' hstage' ho
      · intro c' hstage'
        dsimp only at hstage' ⊢
        by_cases heq : c' = c
        · subst heq
          exact .inl hup
        · rw [Function.update_of_ne heq] at hstage'
          exact h.after c' hstage'

/-- What becomes of the locks of a process in one act of its own. -/
inductive Settled (s : LockedDeployment) (x' : Participant) (locks : Table ConnId Object)
    (c : ConnId) : Prop
  /-- It has what it had. -/
  | kept : (s.participant c).pc.up = true → x'.pc.up = true → (s.participant c).Keeps x' →
      (∀ o n, locks.lock c o n = s.locks.lock c o n) → Settled s x' locks c
  /-- It has nothing any more. -/
  | gone : x'.pc = .ended → (∀ o n, locks.lock c o n = none) → Settled s x' locks c
  /-- It had nothing to lock yet. -/
  | early : (s.participant c).pc.up = false → (s.participant c).pc ≠ .ended →
      (∀ o n, locks.lock c o n = none) → Settled s x' locks c

theorem release_crash (s : LockedDeployment) (d : Deployment) (c : ConnId) :
    s.release d (.participant c .crash) = s.locks.exit c := rfl

theorem release_act {act : Act} (hact : act ≠ .crash) (d : Deployment) (c : ConnId) :
    s.release d (.participant c act) =
      s.locks.close c (closedSince (s.participant c) (d.participants c)) := by
  cases act with
  | crash => exact absurd rfl hact
  | _ => rfl

/-- A step gives locks back and takes none. -/
theorem release_le (d : Deployment) (label : Deployment.Label) (o : ConnId) (file : Object)
    (n : Nat) : (s.release d label).lock o file n = none ∨
      (s.release d label).lock o file n = s.locks.lock o file n := by
  cases label with
  | broker i => exact .inr rfl
  | participant c act =>
      by_cases hcrash : act = .crash
      · subst hcrash
        rw [release_crash]
        exact Table.exit_le
      · rw [release_act hcrash]
        exact Table.close_le

/-- Who is not up has locked nothing. -/
theorem Ordered.unlocked (h : s.Ordered config) (hdown : (s.participant c).pc.up = false)
    (o : Object) (n : Nat) : s.locks.lock c o n = none := by
  cases hlock : s.locks.lock c o n with
  | none => rfl
  | some kind =>
      have hup := (h.held c o n kind hlock).1
      rw [hdown] at hup
      cases hup

theorem Ordered.settled (h : s.Ordered config) (c : ConnId) (act : Act) :
    Settled s ((s.deployment.stepParticipant config c act).participants c)
      (s.release (s.deployment.stepParticipant config c act) (.participant c act)) c := by
  have hpc' : (s.deployment.stepParticipant config c act).participants c =
      ((s.participant c).act (config c) c (s.deployment.channels c) act).1 := by
    simp only [Deployment.stepParticipant, Function.update_self, participant]
  cases hup : (s.participant c).pc.up with
  | false =>
      have hnone : ∀ o n, (s.release (s.deployment.stepParticipant config c act)
          (.participant c act)).lock c o n = none := by
        intro o n
        rcases release_le (s := s) (s.deployment.stepParticipant config c act)
          (.participant c act) c o n with hnone | hold
        · exact hnone
        · rw [hold, h.unlocked hup]
      by_cases hended : (s.participant c).pc = .ended
      · refine .gone ?_ hnone
        rw [hpc']
        exact Participant.act_ended hended
      · exact .early hup hended hnone
  | true =>
      by_cases hcrash : act = .crash
      · subst hcrash
        rw [release_crash]
        refine .gone ?_ fun o n => Table.exit_self
        rw [hpc']
        rfl
      · have hcontinued : (s.participant c).Continued
            ((s.participant c).act (config c) c (s.deployment.channels c) act).1 :=
          Participant.continued_act hup (h.reachable.possessed c hup).bare hcrash
        rw [release_act hcrash]
        rw [← hpc'] at hcontinued
        generalize (s.deployment.stepParticipant config c act).participants c = x' at hcontinued ⊢
        cases hcontinued with
        | up hup' hkeeps =>
            refine .kept hup hup' hkeeps fun o n => ?_
            have hnone : closedSince (s.participant c) x' = [] := by
              rw [closedSince, hkeeps.unmoved.closed, List.drop_length]
            rw [Table.close_self, hnone, if_neg List.not_mem_nil]
        | ended unmapped hkeeps hend hprocess =>
            refine .gone hend fun o n => ?_
            obtain ⟨p, howns⟩ := h.owns hup
            have howns' := hkeeps.owns howns
            have hclosed : .memfd (p + 1) ∈ closedSince (s.participant c) x' := by
              rw [closedSince, hprocess, ← hkeeps.unmoved.closed]
              exact mem_closed_shutdownRest unmapped howns'.cache howns'.lock (by simp)
            rw [Table.close_self]
            split
            · rfl
            · next hopen =>
                cases hlock : s.locks.lock c o n with
                | none => rfl
                | some kind =>
                    obtain ⟨-, -, -, ho⟩ := h.held c o n kind hlock
                    rw [howns.lock] at ho
                    cases ho
                    exact absurd hclosed hopen

/-- A step of the deployment keeps the order. -/
theorem Ordered.deployment (h : s.Ordered config) {label : Deployment.Label} {d : Deployment}
    (hstep : Deployment.Step config s.deployment label d) :
    ({ s with deployment := d, locks := s.release d label } : LockedDeployment).Ordered config := by
  have hreachable := h.reachable.tail hstep
  have hsound : (s.release d label).Sound := h.sound.of_le (release_le d label)
  cases label with
  | broker i =>
      obtain ⟨-, hparticipants, -⟩ := Deployment.stepBroker_eq_some hstep
      have hsame : ({ s with deployment := d, locks := s.release d (.broker i) } :
          LockedDeployment).participant = s.participant := hparticipants
      refine ⟨hreachable, hsound, ?_, ?_, ?_⟩
      · rw [hsame]
        exact h.held
      · rw [hsame]
        exact h.holds
      · rw [hsame]
        exact h.after
  | participant c act =>
      cases hstep
      have hsettled := h.settled c act
      obtain ⟨happened, hact⟩ := Deployment.stepParticipant_spec config s.deployment c act
      generalize s.deployment.stepParticipant config c act = d at *
      have hother : ∀ {c'}, c' ≠ c → d.participants c' = s.participant c' :=
        fun hne => (hact.others _ hne).2
      have hlocks : ∀ {c'} (o : Object) (n : Nat), c' ≠ c →
          (s.release d (.participant c act)).lock c' o n = s.locks.lock c' o n := by
        intro c' o n hne
        by_cases hcrash : act = .crash
        · subst hcrash
          exact Table.exit_of_ne hne
        · rw [release_act hcrash]
          exact Table.close_of_ne hne
      refine ⟨hreachable, hsound, ?_, ?_, ?_⟩
      · intro c' o n kind hlock
        by_cases heq : c' = c
        · subst heq
          cases hsettled with
          | kept _ hup' hkeeps hsame =>
              rw [hsame] at hlock
              obtain ⟨-, hstage, hn, ho⟩ := h.held c' o n kind hlock
              rw [← hkeeps.unmoved.fds, ← hkeeps.lockFd] at ho
              exact ⟨hup', hstage, hn, ho⟩
          | gone _ hnone | early _ _ hnone =>
              rw [hnone] at hlock
              cases hlock
        · rw [hlocks o n heq] at hlock
          have hheld := h.held c' o n kind hlock
          rw [← hother heq] at hheld
          exact hheld
      · intro c' o hup' hstage ho
        by_cases heq : c' = c
        · subst heq
          cases hsettled with
          | kept hup _ hkeeps hsame =>
              change (d.participants c').process.fds.get (d.participants c').client.lockFd = some o at ho
              rw [hkeeps.unmoved.fds, hkeeps.lockFd] at ho
              exact (hsame o 0).trans (h.holds c' o hup hstage ho)
          | gone hend =>
              rw [participant, hend] at hup'
              cases hup'
          | early hdown hend =>
              rcases h.after c' hstage with hup | hended
              · rw [hdown] at hup
                cases hup
              · exact absurd hended hend
        · rw [participant, hother heq] at hup' ho
          exact (hlocks o 0 heq).trans (h.holds c' o hup' hstage ho)
      · intro c' hstage
        by_cases heq : c' = c
        · subst heq
          cases hsettled with
          | kept _ hup' => exact .inl hup'
          | gone hend => exact .inr hend
          | early hdown hend =>
              rcases h.after c' hstage with hup | hended
              · rw [hdown] at hup
                cases hup
              · exact absurd hended hend
        · have hafter := h.after c' hstage
          rw [← hother heq] at hafter
          exact hafter

theorem Reachable.ordered (hs : Reachable config s) : s.Ordered config := by
  refine Execution.Reachable.invariant (I := Ordered config) ?_ ?_ hs
  · rintro s ⟨maxClients, listenerFd, rfl⟩
    exact ordered_start maxClients listenerFd
  · intro s label t h hstep
    obtain ⟨hpermitted, hstep⟩ := hstep
    cases label with
    | deployment label =>
        obtain ⟨d, hd, rfl⟩ := Option.map_eq_some_iff.mp hstep
        exact h.deployment hd
    | lock c granted =>
        obtain ⟨hawake, hstage, hgrant⟩ := hpermitted
        obtain ⟨p, howns⟩ := h.owns hawake.up
        cases hstep
        rw [brokerClientLock, brokerClientSetLock_eq howns.lock]
        exact h.call hawake.up howns.lock (fun hg => hgrant hg _ howns.lock) Iff.rfl
    | unlock c granted =>
        obtain ⟨hawake, hstage⟩ := hpermitted
        obtain ⟨p, howns⟩ := h.owns hawake.up
        cases hstep
        rw [brokerClientUnlock, brokerClientSetLock_eq howns.lock]
        exact h.call hawake.up howns.lock (fun _ => Table.grantable_none) (by simp [hstage])

/-! ### What the lock is good for -/

/-- The processes that use one cache lock one file. -/
theorem Ordered.lock_of_cache (h : s.Ordered config) {cache : Object} (hc : s.Uses c cache)
    (hc' : s.Uses c' cache) : ∃ p, (s.participant c).Owns p ∧ (s.participant c').Owns p := by
  obtain ⟨hup, hcache⟩ := hc
  obtain ⟨hup', hcache'⟩ := hc'
  obtain ⟨p, howns⟩ := h.owns hup
  obtain ⟨p', howns'⟩ := h.owns hup'
  rw [howns.cache] at hcache
  rw [howns'.cache, ← hcache] at hcache'
  cases hcache'
  exact ⟨p, howns, howns'⟩

/-- Between `zend_shared_alloc_lock` and `zend_shared_alloc_unlock` there is one process of a
cache at most. -/
theorem cache_exclusion (hs : Reachable config s) {cache : Object} (hc : s.Uses c cache)
    (hinside : s.stage c = .inside) :
    ∀ c', s.Uses c' cache → s.stage c' = .inside → c' = c := by
  intro c' hc' hinside'
  have h := hs.ordered
  obtain ⟨p, howns, howns'⟩ := h.lock_of_cache hc hc'
  have hlock := h.holds c _ hc.1 (by simp [hinside]) howns.lock
  have hlock' := h.holds c' _ hc'.1 (by simp [hinside']) howns'.lock
  exact (h.sound.exclusive hlock hlock').symm

/-- A lock is never left behind: whoever waits for one waits for a process that is up, uses the
same cache and has it locked, or was refused its unlock. -/
theorem lock_available (hs : Reachable config s) {cache file : Object} (hc : s.Uses c cache)
    (hfile : (s.participant c).process.fds.get (s.participant c).client.lockFd = some file) :
    s.locks.Grantable c file 0 1 LockType.write.kind ↔
      ∀ c', c' ≠ c → s.Uses c' cache → s.stage c' = .outside := by
  have h := hs.ordered
  constructor
  · intro hgrant c' hne hc'
    by_contra hstage
    obtain ⟨p, howns, howns'⟩ := h.lock_of_cache hc hc'
    rw [howns.lock] at hfile
    cases hfile
    have hfree := hgrant c' hne 0 le_rfl Nat.zero_lt_one
    rw [h.holds c' _ hc'.1 hstage howns'.lock] at hfree
    exact hfree
  · intro hfree c' hne n hlow hhigh
    cases hlock : s.locks.lock c' file n with
    | none => exact compatible_symm (compatible_none _)
    | some kind =>
        obtain ⟨hup', hstage', -, hfile'⟩ := h.held c' file n kind hlock
        obtain ⟨p, howns⟩ := h.owns hc.1
        obtain ⟨p', howns'⟩ := h.owns hup'
        rw [howns.lock] at hfile
        rw [howns'.lock, ← hfile] at hfile'
        cases hfile'
        have hcache := hc.2
        rw [howns.cache, ← howns'.cache] at hcache
        exact absurd (hfree c' hne ⟨hup', hcache⟩) hstage'

/-! ### Two processes with one page, of which one has it locked -/

/-- The locks keep no deployment from going on. -/
theorem reachable_of_deployment {d : Deployment} (h : Deployment.Reachable config d) :
    ∃ s, Reachable config s ∧ s.deployment = d ∧ ∀ c, s.stage c = .outside := by
  refine Execution.Reachable.invariant
    (I := fun d => ∃ s, Reachable config s ∧ s.deployment = d ∧ ∀ c, s.stage c = .outside) ?_ ?_ h
  · rintro d ⟨maxClients, listenerFd, rfl⟩
    exact ⟨start maxClients listenerFd, .of_init ⟨maxClients, listenerFd, rfl⟩, rfl, fun _ => rfl⟩
  · intro d label d' hd hstep
    obtain ⟨s, hs, rfl, hstage⟩ := hd
    have hnext : Step config s (.deployment label)
        { s with deployment := d', locks := s.release d' label } := by
      rw [Step, step, hstep]
      rfl
    have hpermitted : s.Permitted (.deployment label) := trivial
    exact ⟨_, hs.tail ⟨hpermitted, hnext⟩, rfl, hstage⟩

/-- In a deployment where nobody has a lock, a process that runs may take it. -/
theorem reachable_locked {d : Deployment} (h : Deployment.Reachable config d)
    (hawake : (d.participants c).pc = .running ∨ (d.participants c).pc = .settled) :
    ∃ s, Reachable config s ∧ s.deployment = d ∧ s.stage c = .inside := by
  obtain ⟨s, hs, rfl, hstage⟩ := reachable_of_deployment h
  have hordered := hs.ordered
  obtain ⟨p, howns⟩ := hordered.owns (awake.up hawake)
  have hpermitted : s.Permitted (.lock c true) := by
    refine ⟨hawake, by simp [hstage], ?_⟩
    intro _ file _ c' _ n _ _
    cases hlock : s.locks.lock c' file n with
    | none => exact compatible_symm (compatible_none _)
    | some kind => exact absurd (hstage c') (hordered.held c' file n kind hlock).2.1
  have hnext : Step config s (.lock c true)
      (s.call c .write ((s.participant c).process, true) (s.stage c)) := by
    rw [Step, step, brokerClientLock, brokerClientSetLock_eq howns.lock]
  refine ⟨_, hs.tail ⟨hpermitted, hnext⟩, ?_, ?_⟩
  · rw [call_eq howns.lock]
  · rw [call_eq howns.lock]
    exact Function.update_self ..

def standing (d : Deployment) (c : ConnId) : ParticipantPc × Option Object × Option Object :=
  let x := d.participants c
  (x.pc, x.process.fds.get x.client.cacheFd, x.process.fds.get x.client.lockFd)

theorem sharing_standing :
    ((Deployment.start 0 3).run Deployment.pageConfig Deployment.sharing).map
        (fun d => (standing d 0, standing d 1)) =
      some ((.settled, some (.memfd 0), some (.memfd 1)),
        (.running, some (.memfd 0), some (.memfd 1))) := by
  decide +kernel

theorem sharing_locked : ∃ s, Reachable Deployment.pageConfig s ∧ s.stage 0 = .inside ∧
    standing s.deployment 0 = (.settled, some (.memfd 0), some (.memfd 1)) ∧
      standing s.deployment 1 = (.running, some (.memfd 0), some (.memfd 1)) := by
  obtain ⟨d, hrun, hstanding⟩ := Option.map_eq_some_iff.mp sharing_standing
  obtain ⟨h0, h1⟩ := Prod.mk.inj hstanding
  have hreach := (Deployment.reachable_start 0 3).run hrun
  obtain ⟨s, hs, rfl, hstage⟩ := reachable_locked hreach (.inr (congrArg Prod.fst h0))
  exact ⟨s, hs, hstage, h0, h1⟩

theorem uses_of_standing {file : Object} {cache lock : Option Object} {pc : ParticipantPc}
    (h : standing s.deployment c = (pc, cache, lock)) (hup : pc.up = true)
    (hcache : cache = some file) : s.Uses c file := by
  obtain ⟨rfl, hrest⟩ := Prod.mk.inj h
  exact ⟨hup, (Prod.mk.inj hrest).1.trans hcache⟩

theorem cache_exclusion_of_page : ∃ s, Reachable Deployment.pageConfig s ∧
    s.Uses 0 (.memfd 0) ∧ s.Uses 1 (.memfd 0) ∧ s.stage 0 = .inside ∧
      ∀ c', s.Uses c' (.memfd 0) → s.stage c' = .inside → c' = 0 := by
  obtain ⟨s, hs, hstage, h0, h1⟩ := sharing_locked
  have hc := uses_of_standing h0 rfl rfl
  exact ⟨s, hs, hc, uses_of_standing h1 rfl rfl, hstage, cache_exclusion hs hc hstage⟩

theorem lock_available_of_page : ∃ s, Reachable Deployment.pageConfig s ∧
    s.Uses 1 (.memfd 0) ∧ ¬ s.locks.Grantable 1 (.memfd 1) 0 1 LockType.write.kind := by
  obtain ⟨s, hs, hstage, h0, h1⟩ := sharing_locked
  have hc := uses_of_standing h1 rfl rfl
  have hfile := (Prod.mk.inj (Prod.mk.inj h1).2).2
  refine ⟨s, hs, hc, fun hgrant => ?_⟩
  have houtside := (lock_available hs hc hfile).mp hgrant 0 (by decide) (uses_of_standing h0 rfl rfl)
  rw [hstage] at houtside
  cases houtside

end LockedDeployment

end Hyperglyph
