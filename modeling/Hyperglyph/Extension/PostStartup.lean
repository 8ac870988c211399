import Hyperglyph.Extension.Accounting

/-! `accel_post_startup` as the patch leaves it: how OPcache's startup ends, and what the provider
hears of it. -/
namespace Hyperglyph

open DescriptorTable Process

/-- What `accel_post_startup` is answered: by `zend_shared_alloc_startup`, `zend_accel_init_shm`,
the locks around attached globals, `accel_finish_startup` and the broker. -/
structure PostStartupAnswers where
  startup : WiredStartup
  initialized : Bool
  lock : LockType → LockCommand → Bool
  unlock : LockType → LockCommand → Bool
  finished : Bool
  publish : ExchangeAnswers
  abort : ExchangeAnswers

/-- The kernel delivers what it can. -/
structure PostStartupAnswers.Delivered (a : PostStartupAnswers) : Prop where
  acquire : Deliverable a.startup.acquire.reply
  farewell : Deliverable a.startup.farewell.reply
  publish : Deliverable a.publish.reply
  abort : Deliverable a.abort.reply

namespace Wired

section Driver

variable (sizeofSharedGlobals : UInt64) (s : Wired)

/-- What `zend_shared_alloc_startup` returns. -/
def startupStatus (a : WiredStartup) : Int :=
  if s.opcache.providerRegistered = true ∧ s.verdict sizeofSharedGlobals a ≠ allocFailure then
    s.verdict sizeofSharedGlobals a
  else a.builtin.elim allocFailure (·.status)

/-- From `accel_finish_startup` on. -/
def finishStartup (reattached : Bool) (a : PostStartupAnswers) : Wired × Option Bool :=
  if a.finished then (s.providerStartupComplete reattached a.publish a.abort, some true)
  else (s.providerStartupAborted "OPcache could not finish startup" a.abort, some false)

/-- The globals of the creator are taken over under the lock. -/
def attachGlobals (a : PostStartupAnswers) : Wired × Option Bool :=
  let locked := s.lock a.lock
  if locked.opcache.stage = .ended then (locked, none)
  else
    let unlocked := locked.unlock a.unlock
    if unlocked.opcache.stage = .ended then (unlocked, none) else unlocked.finishStartup true a

/-- `accel_post_startup`; the flag is `SUCCESS`, and without it the function did not return. -/
def accelPostStartup (a : PostStartupAnswers) : Wired × Option Bool :=
  let started := s.startup sizeofSharedGlobals a.startup
  let status := s.startupStatus sizeofSharedGlobals a.startup
  if started.opcache.stage = .ended then (started, none)
  else if status = successfullyReattached then started.attachGlobals a
  else if status = failedReattached then
    let aborted := started.providerStartupAborted
      "OPcache could not reattach the external shared memory" a.abort
    ({ aborted with opcache := aborted.opcache.fatal }, none)
  else if status = allocSuccess ∧ a.initialized = false then
    (started.providerStartupAborted "OPcache shared globals could not be initialized" a.abort,
      some false)
  else started.finishStartup false a

end Driver

variable {s t : Wired} {sizeofSharedGlobals : UInt64} {a : PostStartupAnswers} {reattached : Bool}

/-! ### Between the allocation and the notification -/

/-- Nothing was published, and the provider heard of the allocation and of locks only. -/
structure Serving (sizeofSharedGlobals : UInt64) (s : Wired) (a : WiredStartup) (reattached : Bool)
    (t : Wired) : Prop where
  reachable : t.Reachable sizeofSharedGlobals
  notDown : t.opcache.stage ≠ .down
  warnings : t.warnings = s.warnings ++ (s.created a).warning.toList
  ready : t.broker.ready = false
  unfinished : t.opcache.providerActive = true → t.opcache.startupFinished = false
  creator : t.opcache.providerActive = true →
    t.broker.creator = !reattached ∧ t.broker.reattached = reattached
  told : t.opcache.providerActive = true → ∃ uses, (∀ e ∈ uses, e.IsUse) ∧ t.opcache.delivered =
    s.opcache.delivered ++ .createSegments (s.verdict sizeofSharedGlobals a) :: uses

theorem startupGlobals_notices (o : Opcache) (res : Int) (a : StartupAnswers) :
    (o.startupGlobals res a).startupFinished = o.startupFinished ∧
      (o.startupGlobals res a).delivered = o.delivered := by
  unfold Opcache.startupGlobals
  split
  · exact ⟨rfl, rfl⟩
  · split
    · exact ⟨rfl, rfl⟩
    · split <;> exact ⟨rfl, rfl⟩

/-- An accepted allocation is the client's own. -/
theorem verdict_code {b : WiredStartup} (h : s.verdict sizeofSharedGlobals b ≠ allocFailure) :
    s.verdict sizeofSharedGlobals b = (s.created b).status.code := by
  have hcases : s.verdict sizeofSharedGlobals b = (s.created b).status.code ∨
      s.verdict sizeofSharedGlobals b = allocFailure := createSegments_status
  exact hcases.resolve_right h

theorem Serving.kept (h : Serving sizeofSharedGlobals s a.startup reattached t) : t.Kept :=
  h.reachable.kept

theorem serving_startup (hs : s.Reachable sizeofSharedGlobals) (hdown : s.opcache.stage = .down) (ha : a.Delivered) :
    Serving sizeofSharedGlobals s a.startup
      (decide (s.startupStatus sizeofSharedGlobals a.startup = successfullyReattached))
      (s.startup sizeofSharedGlobals a.startup) := by
  have h := hs.kept
  have hpermitted : s.Permitted (.startup a.startup) :=
    ⟨by rw [hdown]; decide, hdown, ha.acquire, ha.farewell⟩
  have hreachable : (s.startup sizeofSharedGlobals a.startup).Reachable sizeofSharedGlobals :=
    hs.call hpermitted
  obtain ⟨hinactive, hidle, -, halone⟩ := h.atRest hdown
  by_cases hverdict : s.verdict sizeofSharedGlobals a.startup = allocFailure
  · obtain ⟨p, -, -, heq⟩ := startup_fallsBack h hdown ha.acquire ha.farewell hverdict
    rw [heq] at hreachable ⊢
    generalize p.openLock a.startup.lockFile = locked at hreachable ⊢
    obtain ⟨hactive, -, -, hstage, -⟩ := Opcache.startup_refused
      (a := s.startupAnswers a.startup locked.2) h.isRegistered hverdict
    have hoff : (s.opcache.sharedAllocStartup sizeofSharedGlobals
        (s.startupAnswers a.startup locked.2)).providerActive = false := hactive.trans hinactive
    have hnever : ∀ {P : Prop}, (s.opcache.sharedAllocStartup sizeofSharedGlobals
        (s.startupAnswers a.startup locked.2)).providerActive = true → P :=
      fun hon => absurd (hoff.symm.trans hon) Bool.false_ne_true
    exact ⟨hreachable, hstage, rfl, rfl, hnever, hnever, hnever⟩
  · unfold Wired.startup startupExternal at hreachable ⊢
    simp only [if_pos h.isRegistered, if_neg hverdict] at hreachable ⊢
    rcases created_cases halone hidle ha.acquire with ⟨hfailed, -⟩ |
      ⟨cache, lock, socket, hacquired⟩
    · exact absurd ((verdict_code hverdict).trans (congrArg ShmStatus.code hfailed)) hverdict
    · obtain ⟨-, -, -, hstage⟩ := Opcache.startup_accepted
        (a := s.startupAnswers a.startup none) h.isRegistered hverdict
      obtain ⟨o', -, hdelivered, hstarted⟩ := Opcache.startup_of_accepted
        (a := s.startupAnswers a.startup none) h.isRegistered hverdict
      obtain ⟨hfinished, htold⟩ := startupGlobals_notices { o' with
        lockFile := (s.startupAnswers a.startup none).lockFile, providerActive := true,
        startupFinished := false } _ (s.startupAnswers a.startup none)
      rw [← hstarted] at hfinished htold
      refine ⟨hreachable, hstage, rfl, hacquired.ready, fun _ => hfinished, fun _ => ?_,
        fun _ => ⟨[], by simp, htold.trans hdelivered⟩⟩
      have hstatus := (verdict_code hverdict).trans (congrArg ShmStatus.code hacquired.status)
      have hreturned : s.startupStatus sizeofSharedGlobals a.startup =
          s.verdict sizeofSharedGlobals a.startup := if_pos ⟨h.isRegistered, hverdict⟩
      rw [hreturned, hstatus, hacquired.reattached]
      cases (s.created a.startup).broker.creator with
      | true => exact ⟨rfl, rfl⟩
      | false => exact ⟨rfl, rfl⟩

/-- A lock or an unlock in between. -/
theorem Serving.used {t' : Wired} {e : ProviderEvent}
    (h : Serving sizeofSharedGlobals s a.startup reattached t)
    (hreachable : t'.Reachable sizeofSharedGlobals)
    (hopcache : t.opcache.Served t'.opcache) (hbroker : t'.broker = t.broker)
    (hwarnings : t'.warnings = t.warnings)
    (hfinished : t'.opcache.startupFinished = t.opcache.startupFinished) (he : e.IsUse)
    (hdelivered : t'.opcache.delivered =
      t.opcache.delivered ++ if t.opcache.providerActive = true then [e] else []) :
    Serving sizeofSharedGlobals s a.startup reattached t' := by
  constructor
  · exact hreachable
  · rcases hopcache.stage with hsame | hended
    · exact fun hdown => h.notDown (hsame.symm.trans hdown)
    · exact fun hdown => by cases hended.symm.trans hdown
  · exact hwarnings.trans h.warnings
  · rw [hbroker]
    exact h.ready
  · exact fun hactive => hfinished.trans (h.unfinished (hopcache.active.symm.trans hactive))
  · rw [hbroker]
    exact fun hactive => h.creator (hopcache.active.symm.trans hactive)
  · intro hactive
    have hon := hopcache.active.symm.trans hactive
    obtain ⟨uses, huses, htold⟩ := h.told hon
    refine ⟨uses ++ [e], forall_mem_concat huses he, ?_⟩
    rw [hdelivered, if_pos hon, htold, List.append_assoc]
    rfl

theorem Serving.sharedAllocLock (h : Serving sizeofSharedGlobals s a.startup reattached t)
    (hup : t.opcache.stage = .up) (answer : LockType → LockCommand → Bool) :
    Serving sizeofSharedGlobals s a.startup reattached (t.lock answer) := by
  have hpermitted : t.Permitted (.lock answer) := ⟨by rw [hup]; decide, hup⟩
  have hreachable : (t.lock answer).Reachable sizeofSharedGlobals := h.reachable.call hpermitted
  unfold Wired.lock at hreachable ⊢
  generalize (if t.opcache.providerActive = true then brokerClientLock t.process t.broker answer
    else t.process.fcntl t.opcache.lockFile (answer .write .setLockWait)) = r at hreachable ⊢
  refine h.used hreachable (Opcache.served_lock t.opcache r.2) rfl rfl ?_ (e := .lock r.2) trivial
    (Opcache.delivered_sharedAllocLock r.2)
  unfold Opcache.sharedAllocLock
  dsimp only
  split <;> split <;> rfl

theorem Serving.sharedAllocUnlock (h : Serving sizeofSharedGlobals s a.startup reattached t)
    (hup : t.opcache.stage = .up) (answer : LockType → LockCommand → Bool) :
    Serving sizeofSharedGlobals s a.startup reattached (t.unlock answer) := by
  have hpermitted : t.Permitted (.unlock answer) := ⟨by rw [hup]; decide, hup⟩
  have hreachable : (t.unlock answer).Reachable sizeofSharedGlobals := h.reachable.call hpermitted
  unfold Wired.unlock at hreachable ⊢
  generalize (if t.opcache.providerActive = true then brokerClientUnlock t.process t.broker answer
    else t.process.fcntl t.opcache.lockFile (answer .unlock .setLock)) = r at hreachable ⊢
  refine h.used hreachable (Opcache.served_unlock t.opcache r.2) rfl rfl ?_ (e := .unlock r.2) trivial
    (Opcache.delivered_sharedAllocUnlock r.2)
  unfold Opcache.sharedAllocUnlock
  dsimp only
  split <;> split <;> rfl

/-! ### How the startup ends -/

/-- What the provider hears at the end. -/
def IsLast (t : Wired) (success : Bool) (notice : ProviderEvent) : Prop :=
  if success then notice = .startupComplete true t.broker.reattached t.opcache.sharedGlobals
  else ∃ reason, notice = .startupAborted true reason

/-- `accel_post_startup` has come to its end, and this is what it made of the startup. -/
structure Settled (sizeofSharedGlobals : UInt64) (s : Wired) (a : WiredStartup)
    (r : Wired × Option Bool) : Prop where
  accounted : r.1.Accounted
  returned : ∀ success, r.2 = some success →
    r.1.Reachable sizeofSharedGlobals ∧ r.1.opcache.stage = .up
  ready : r.1.broker.ready = true → r.2 = some true ∧ r.1.broker.creator = true
  warnings : r.1.warnings = s.warnings ++ (s.created a).warning.toList ++
    if r.2 = some true ∧ r.1.broker.creator = true ∧ r.1.broker.ready = false then [abandonedText]
    else []
  told : ∀ success, r.2 = some success → r.1.opcache.providerActive = true →
    r.1.opcache.startupFinished = true ∧ ∃ uses notice, (∀ e ∈ uses, e.IsUse) ∧
      r.1.IsLast success notice ∧ r.1.opcache.delivered =
        s.opcache.delivered ++ .createSegments (s.verdict sizeofSharedGlobals a) :: uses ++ [notice]

theorem publish_outcome (p : Process) (broker : BrokerClient) (sharedGlobals : UInt64)
    (publish : ExchangeAnswers) :
    ∃ p', brokerClientPublish p broker sharedGlobals publish = (p', broker.published, true) ∨
      brokerClientPublish p broker sharedGlobals publish = (p', broker, false) := by
  unfold brokerClientPublish
  split
  · exact ⟨p, .inr rfl⟩
  · split
    · next p' _ _ => exact ⟨p', .inr rfl⟩
    · split
      · next p' _ => exact ⟨p', .inl rfl⟩
      · next p' _ => exact ⟨p', .inr rfl⟩

/-- Only a creator publishes, and if it cannot it says so. -/
theorem startupComplete_outcome (p : Process) {broker : BrokerClient} (sharedGlobals : UInt64)
    (publish abort : ExchangeAnswers) (hcreator : broker.creator = !reattached) :
    ∃ p', broker.creator = true ∧
        startupComplete p broker reattached sharedGlobals publish abort =
          (p', broker.published, false) ∨
      startupComplete p broker reattached sharedGlobals publish abort =
        (p', broker, broker.creator) := by
  unfold startupComplete
  cases reattached with
  | true =>
      rw [hcreator]
      exact ⟨p, .inr rfl⟩
  | false =>
      rw [hcreator]
      obtain ⟨p', hdone | hfailed⟩ := publish_outcome p broker sharedGlobals publish
      · simp only [Bool.not_false, Bool.and_self, if_true, hdone]
        exact ⟨p', .inl ⟨trivial, rfl⟩⟩
      · simp only [Bool.not_false, Bool.and_self, if_true, hfailed]
        exact ⟨_, .inr rfl⟩

theorem Serving.up (h : Serving sizeofSharedGlobals s a.startup reattached t)
    (hrunning : t.opcache.stage ≠ .ended) : t.opcache.stage = .up := by
  cases hstage : t.opcache.stage with
  | down => exact absurd hstage h.notDown
  | up => rfl
  | ended => exact absurd hstage hrunning

theorem Kept.provider (h : t.Kept) : t.opcache.provider = aheOpcacheProvider :=
  congrArg Prod.snd h.registered

/-- OPcache did not return. -/
theorem Serving.ended (h : Serving sizeofSharedGlobals s a.startup reattached t) :
    Settled sizeofSharedGlobals s a.startup (t, none) := by
  refine ⟨h.kept.accounted, by simp, fun hready => ?_, ?_, by simp⟩
  · cases h.ready.symm.trans hready
  · rw [if_neg (by simp), List.append_nil]
    exact h.warnings

theorem Serving.aborted (h : Serving sizeofSharedGlobals s a.startup reattached t)
    (hrunning : t.opcache.stage ≠ .ended) (ha : a.Delivered) (reason : String) :
    Settled sizeofSharedGlobals s a.startup
      (t.providerStartupAborted reason a.abort, some false) := by
  have hpermitted : t.Permitted (.startupAborted reason a.abort) := ⟨hrunning, ha.abort⟩
  have hreachable : (t.providerStartupAborted reason a.abort).Reachable sizeofSharedGlobals :=
    h.reachable.call hpermitted
  have hsame : (t.opcache.providerStartupAborted reason).stage = t.opcache.stage := by
    unfold Opcache.providerStartupAborted
    split <;> rfl
  refine ⟨hreachable.kept.accounted, fun _ _ => ⟨hreachable, hsame.trans (h.up hrunning)⟩,
    fun hready => ?_, ?_, ?_⟩
  · cases h.ready.symm.trans hready
  · rw [if_neg (by simp), List.append_nil]
    exact h.warnings
  · intro success hsuccess hactive
    cases hsuccess
    have hon := (Opcache.served_startupAborted t.opcache reason).active.symm.trans hactive
    have htold : t.opcache.providerStartupAborted reason =
        { (t.opcache.deliver [.startupAborted t.opcache.provider.startupAborted reason]) with
          startupFinished := true } := by
      unfold Opcache.providerStartupAborted
      simp [hon, h.unfinished hon]
    obtain ⟨uses, huses, hdelivered⟩ := h.told hon
    change (t.opcache.providerStartupAborted reason).startupFinished = true ∧ _
    refine ⟨by rw [htold], uses, .startupAborted true reason, huses, ⟨reason, rfl⟩, ?_⟩
    change (t.opcache.providerStartupAborted reason).delivered = _
    rw [htold]
    refine (Opcache.delivered_deliver _ _).trans ?_
    rw [hdelivered, h.kept.provider]
    rfl

theorem Serving.completed (h : Serving sizeofSharedGlobals s a.startup reattached t)
    (hrunning : t.opcache.stage ≠ .ended) (ha : a.Delivered) :
    Settled sizeofSharedGlobals s a.startup
      (t.providerStartupComplete reattached a.publish a.abort, some true) := by
  have hpermitted : t.Permitted (.startupComplete reattached a.publish a.abort) :=
    ⟨hrunning, ha.publish, ha.abort⟩
  have hreachable : (t.providerStartupComplete reattached a.publish a.abort).Reachable
      sizeofSharedGlobals := h.reachable.call hpermitted
  cases hon : t.opcache.providerActive with
  | false =>
      have hsame : t.providerStartupComplete reattached a.publish a.abort = t := by
        unfold Wired.providerStartupComplete Opcache.providerStartupComplete notifies
        simp [hon]
      rw [hsame]
      have hcreator : t.broker.creator = false := by
        rw [h.kept.idle hon]
        rfl
      refine ⟨h.kept.accounted, fun _ _ => ⟨h.reachable, h.up hrunning⟩, fun hready => ?_, ?_,
        fun _ _ hactive => ?_⟩
      · cases h.ready.symm.trans hready
      · rw [if_neg (by simp [hcreator]), List.append_nil]
        exact h.warnings
      · cases hon.symm.trans hactive
  | true =>
      obtain ⟨hcreator, hreattached⟩ := h.creator hon
      obtain ⟨uses, huses, hdelivered⟩ := h.told hon
      have hnotifies : t.notifies = true := by
        unfold notifies
        rw [hon, h.unfinished hon]
        rfl
      have htold : t.opcache.providerStartupComplete reattached =
          { (t.opcache.deliver [.startupComplete t.opcache.provider.startupComplete reattached
            t.opcache.sharedGlobals]) with startupFinished := true } := by
        unfold Opcache.providerStartupComplete
        simp [hon, h.unfinished hon]
      have hlast : (t.opcache.providerStartupComplete reattached).delivered = s.opcache.delivered ++
          .createSegments (s.verdict sizeofSharedGlobals a.startup) :: uses ++
            [.startupComplete true t.broker.reattached t.opcache.sharedGlobals] := by
        rw [htold]
        refine (Opcache.delivered_deliver _ _).trans ?_
        rw [hdelivered, h.kept.provider, hreattached]
        rfl
      have hfinished : (t.opcache.providerStartupComplete reattached).startupFinished = true := by
        rw [htold]
      have hstage : (t.opcache.providerStartupComplete reattached).stage = t.opcache.stage := by
        rw [htold]
        rfl
      have hglobals : (t.opcache.providerStartupComplete reattached).sharedGlobals =
          t.opcache.sharedGlobals := by
        rw [htold]
        rfl
      rw [← hglobals] at hlast
      unfold Wired.providerStartupComplete at hreachable ⊢
      obtain ⟨p, ⟨hmade, houtcome⟩ | houtcome⟩ := startupComplete_outcome t.process
        t.opcache.sharedGlobals a.publish a.abort hcreator
      · -- the generation was published
        simp only [if_pos hnotifies, houtcome] at hreachable ⊢
        refine ⟨hreachable.kept.accounted, fun _ _ => ⟨hreachable, hstage.trans (h.up hrunning)⟩,
          fun _ => ⟨rfl, hmade⟩, ?_, fun success hsuccess _ => ?_⟩
        · rw [if_neg Bool.false_ne_true, if_neg (by simp [BrokerClient.published]), List.append_nil]
          exact h.warnings
        · cases hsuccess
          exact ⟨hfinished, uses, _, huses, rfl, hlast⟩
      · -- there was nothing to publish, or it was abandoned
        simp only [if_pos hnotifies, houtcome] at hreachable ⊢
        refine ⟨hreachable.kept.accounted, fun _ _ => ⟨hreachable, hstage.trans (h.up hrunning)⟩,
          fun hready => ?_, ?_, fun success hsuccess _ => ?_⟩
        · cases h.ready.symm.trans hready
        · cases hmade : t.broker.creator with
          | true => simp [h.ready, h.warnings]
          | false => simp [h.warnings]
        · cases hsuccess
          exact ⟨hfinished, uses, _, huses, rfl, hlast⟩

/-- A startup that failed to reattach is fatal once the provider has heard of it. -/
theorem Settled.fatal {success : Option Bool} (h : Settled sizeofSharedGlobals s a.startup
    (t, success)) (hkept : t.Kept) (hready : t.broker.ready = false)
    (hfailed : success ≠ some true) :
    Settled sizeofSharedGlobals s a.startup ({ t with opcache := t.opcache.fatal }, none) := by
  have hfatal : Kept { t with opcache := t.opcache.fatal } :=
    hkept.served ⟨rfl, rfl, rfl, .inr rfl⟩ (fun _ _ _ _ _ hholding => hholding.holds) (.inl rfl)
      (fun _ => rfl) rfl
  refine ⟨hfatal.accounted, by simp, fun hpublished => ?_, ?_, by simp⟩
  · cases hready.symm.trans hpublished
  · have hwarnings := h.warnings
    rw [if_neg (fun hboth => hfailed hboth.1)] at hwarnings
    rw [if_neg (by simp)]
    exact hwarnings

theorem Serving.finishStartup (h : Serving sizeofSharedGlobals s a.startup reattached t)
    (hrunning : t.opcache.stage ≠ .ended) (ha : a.Delivered) :
    Settled sizeofSharedGlobals s a.startup (t.finishStartup reattached a) := by
  unfold Wired.finishStartup
  split
  · exact h.completed hrunning ha
  · exact h.aborted hrunning ha _

theorem Serving.attachGlobals (h : Serving sizeofSharedGlobals s a.startup true t)
    (hrunning : t.opcache.stage ≠ .ended) (ha : a.Delivered) :
    Settled sizeofSharedGlobals s a.startup (t.attachGlobals a) := by
  have hlocked := h.sharedAllocLock (h.up hrunning) a.lock
  unfold Wired.attachGlobals
  dsimp only
  split
  · exact hlocked.ended
  · next hholding =>
      have hunlocked := hlocked.sharedAllocUnlock (hlocked.up hholding) a.unlock
      split
      · exact hunlocked.ended
      · next hreleased => exact hunlocked.finishStartup hreleased ha

/-- However `accel_post_startup` ends, the provider heard of it once, and only a creator whose
OPcache started has published. -/
theorem post_startup_settles (h : s.Reachable sizeofSharedGlobals)
    (hdown : s.opcache.stage = .down) (ha : a.Delivered) :
    Settled sizeofSharedGlobals s a.startup (s.accelPostStartup sizeofSharedGlobals a) := by
  have hserving : Serving sizeofSharedGlobals s a.startup _ _ := serving_startup h hdown ha
  unfold accelPostStartup
  dsimp only
  by_cases hended : (s.startup sizeofSharedGlobals a.startup).opcache.stage = .ended
  · rw [if_pos hended]
    exact hserving.ended
  rw [if_neg hended]
  by_cases hattached : s.startupStatus sizeofSharedGlobals a.startup = successfullyReattached
  · rw [decide_eq_true hattached] at hserving
    rw [if_pos hattached]
    exact hserving.attachGlobals hended ha
  rw [decide_eq_false hattached] at hserving
  rw [if_neg hattached]
  split
  · exact (hserving.aborted hended ha _).fatal
      (hserving.kept.providerStartupAborted _ ha.abort) hserving.ready (by simp)
  · split
    · exact hserving.aborted hended ha _
    · exact hserving.finishStartup hended ha

/-- A broker that gives the creator its memory and acknowledges `READY`. -/
def creatingAnswers : PostStartupAnswers where
  startup :=
    { attachingStartup with
      acquire :=
        { ClientLife.attaching with
          reply := .ok
            { octets := MessageV1.encode { brokerMessageInit .create with mappingSize := 4096 }
              control := [.rights [(4, .memfd 0), (5, .memfd 1)] false]
              controlTruncated := false } }
      globals := some 65600 }
  initialized := true
  lock := fun _ _ => true
  unlock := fun _ _ => true
  finished := true
  publish := ⟨.ok (), .ok ⟨MessageV1.encode (brokerMessageInit .ack), [], false⟩⟩
  abort := ⟨.ok (), .error .again⟩

theorem post_startup_settles_creating :
    ((start .empty).accelPostStartup 64 creatingAnswers).1.broker.ready = true ∧
      Settled 64 (start .empty) creatingAnswers.startup
        ((start .empty).accelPostStartup 64 creatingAnswers) := by
  have hstart : (start .empty).Reachable 64 := .of_init ⟨.empty, rfl⟩
  have hdelivered : creatingAnswers.Delivered := by
    constructor
    · intro r hr
      cases hr
      exact ⟨by decide, by decide⟩
    · intro r hr
      cases hr
    · intro r hr
      cases hr
      exact ⟨by decide, by decide⟩
    · intro r hr
      cases hr
  exact ⟨by decide +kernel, post_startup_settles hstart rfl hdelivered⟩

end Wired

end Hyperglyph
