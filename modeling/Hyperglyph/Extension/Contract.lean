import Hyperglyph.Deployment.Agreement
import Hyperglyph.Extension.Launcher
import Hyperglyph.Extension.SharedObject

/-! When the extension lets OPcache use the broker: which order of loading leads there, and what
the process it runs in must be. -/
namespace Hyperglyph

namespace Engine

variable {p : PhpProcess} {sizeofSharedGlobals : UInt64} {ours : Nat} {s : Engine}
  {starts : String → Bool} {name : String}

/-! ### Who may use the provider -/

theorem messageHandler_enabled (s : Engine) (message : Int) (arg : Option ZendExtension)
    (exported : Bool) :
    (s.messageHandler message arg exported).opcacheProviderEnabled = s.opcacheProviderEnabled := by
  unfold messageHandler
  dsimp only
  repeat' split
  all_goals rfl

/-- A startup enables the provider only after the check. -/
theorem startup_enabled (s : Engine)
    (h : (s.startup p).1.opcacheProviderEnabled = true) :
    s.opcacheProviderEnabled = true ∨ p.verifyAslrContract = true := by
  unfold startup at h
  split at h
  · exact .inl h
  · dsimp only at h
    split at h
    · left
      split at h <;> exact h
    · next hverified => exact .inr (by simpa using hverified)

theorem startOne_enabled (s : Engine) (name : String)
    (h : (s.startOne p starts name).opcacheProviderEnabled = true) :
    s.opcacheProviderEnabled = true ∨ p.verifyAslrContract = true := by
  unfold startOne at h
  by_cases hname : name = aheName
  · rw [if_pos hname] at h
    dsimp only at h
    split at h <;> exact startup_enabled s h
  · rw [if_neg hname] at h
    dsimp only at h
    split at h <;> exact .inl h

theorem Reachable.enabled_verified (h : Reachable p sizeofSharedGlobals ours s) :
    s.opcacheProviderEnabled = true → p.verifyAslrContract = true := by
  refine Execution.Reachable.invariant
    (I := fun s : Engine => s.opcacheProviderEnabled = true → p.verifyAslrContract = true) ?_ ?_ h
  · rintro s rfl henabled
    cases henabled
  · rintro s label _ hs ⟨-, rfl⟩ henabled
    cases label with
    | load e exported =>
        have hsame : (s.dispatchMessage e exported).opcacheProviderEnabled =
            s.opcacheProviderEnabled := by
          unfold dispatchMessage
          split
          · exact messageHandler_enabled s _ _ _
          · rfl
        exact hs (hsame.symm.trans henabled)
    | startExtensions starts =>
        have hall : ∀ (names : List String) (s : Engine),
            (s.opcacheProviderEnabled = true → p.verifyAslrContract = true) →
            (names.foldl (startOne p starts) s).opcacheProviderEnabled = true →
              p.verifyAslrContract = true := by
          intro names
          induction names with
          | nil => exact fun s hs henabled => hs henabled
          | cons name rest ih =>
              intro s hs henabled
              refine ih _ (fun hone => ?_) henabled
              exact (startOne_enabled s name hone).elim hs id
        exact hall _ s hs henabled
    | opcache call => exact hs henabled
    | destroyExtensions => exact hs henabled

/-- In a process whose addresses are random nothing is asked of the broker. -/
theorem no_broker_at_random_addresses (h : Reachable p sizeofSharedGlobals ours s)
    (hrandom : p.aslrDisabled = false) {e : Environment}
    (henabled : e.providerEnabled = s.opcacheProviderEnabled)
    (hsocket : e.brokerSocket = p.brokerSocket) (process : Process) (broker : BrokerClient)
    (c : ConnId) (requestedSize : UInt64) (a : AcquireAnswers) :
    createSegments e process broker c requestedSize a =
      ⟨process, broker, .cleared, .allocFailure, none⟩ := by
  have hrefused : e.createCacheKey requestedSize = .error none := by
    unfold Environment.createCacheKey
    cases hprovider : e.providerEnabled with
    | false => rfl
    | true =>
        have hverified := h.enabled_verified (henabled ▸ hprovider)
        have hnone : p.brokerSocketSet = false := by
          rcases (PhpProcess.verifyAslrContract_iff p).mp hverified with hfree | hfixed
          · exact hfree.2
          · rw [hrandom] at hfixed
            cases hfixed
        simp only [Bool.not_true, Bool.false_eq_true, if_false]
        rw [hsocket]
        unfold PhpProcess.brokerSocketSet at hnone
        cases hbroker : p.brokerSocket with
        | none => rfl
        | some t =>
            rw [hbroker] at hnone
            have hempty : t.bytes = [] := by simpa using hnone
            simp [hempty]
  unfold createSegments
  rw [hrefused]
  rfl

theorem no_broker_refused :
    createSegments { Deployment.pageEnvironment with
        providerEnabled := (refusedLabels.foldl (step randomized 64) start).opcacheProviderEnabled }
      .start .initializer 0 4096 misplaced =
        ⟨.start, .initializer, .cleared, .allocFailure, none⟩ :=
  no_broker_at_random_addresses reachable_refused rfl rfl (by decide) .start .initializer 0 4096
    misplaced

/-! ### Which order of loading succeeds -/

abbrev Loads := List (ZendExtension × Bool)

/-- What the labels load, in order. -/
def loads (labels : List Label) : Loads :=
  labels.filterMap fun
    | .load e exported => some (e, exported)
    | _ => none

/-- The loads the extension hears of. -/
def sinceOwn : Loads → Loads
  | [] => []
  | l :: rest => if l.1.name = aheName then rest else sinceOwn rest

theorem sinceOwn_of_mem {loaded : Loads} (h : ∃ l ∈ loaded, l.1.name = aheName)
    (l : ZendExtension × Bool) : sinceOwn (loaded ++ [l]) = sinceOwn loaded ++ [l] := by
  induction loaded with
  | nil => simp at h
  | cons first rest ih =>
      rw [List.cons_append, sinceOwn, sinceOwn]
      split
      · rfl
      · next hother =>
          obtain ⟨own, hown, hname⟩ := h
          rcases List.mem_cons.mp hown with rfl | hrest
          · exact absurd hname hother
          · exact ih ⟨own, hrest, hname⟩

theorem sinceOwn_split {before : Loads} (hbefore : ∀ l ∈ before, l.1.name ≠ aheName)
    {own : ZendExtension × Bool} (hown : own.1.name = aheName) (after : Loads) :
    sinceOwn (before ++ own :: after) = after := by
  induction before with
  | nil => exact if_pos hown
  | cons first rest ih =>
      rw [List.cons_append, sinceOwn, if_neg (hbefore first List.mem_cons_self)]
      exact ih fun l hl => hbefore l (List.mem_cons_of_mem _ hl)

theorem sinceOwn_of_not_mem {loaded : Loads} (h : ∀ l ∈ loaded, l.1.name ≠ aheName)
    (l : ZendExtension × Bool) : sinceOwn (loaded ++ [l]) = [] := by
  by_cases hown : l.1.name = aheName
  · exact sinceOwn_split h hown []
  · induction loaded with
    | nil => exact if_neg hown
    | cons first rest ih =>
        rw [List.cons_append, sinceOwn, if_neg (h first List.mem_cons_self)]
        exact ih fun l hl => h l (List.mem_cons_of_mem _ hl)

theorem aheName_ne : aheName ≠ opcacheName := by decide

/-- An OPcache that takes providers. -/
def Registers (l : ZendExtension × Bool) : Prop :=
  l.1.name = opcacheName ∧ l.1.handle ≠ none ∧ l.2 = true

/-- What the loads have come to before anything is started. -/
structure Heard (s : Engine) (loaded : Loads) : Prop where
  extensions : s.extensions = loaded.map (·.1)
  once : (loaded.map (·.1.name)).Nodup
  seen : s.opcacheSeen = true ↔ ∃ l ∈ sinceOwn loaded, l.1.name = opcacheName
  registered : s.opcacheProviderRegistered = true → ∃ l ∈ sinceOwn loaded, Registers l
  taken : (∃ l ∈ sinceOwn loaded, Registers l) → s.opcache.providerRegistered = true
  notStarted : s.opcache.started = false
  enabled : s.opcacheProviderEnabled = false

theorem heard_start : start.Heard [] where
  extensions := rfl
  once := List.nodup_nil
  seen := by simp [start, sinceOwn]
  registered := by simp [start]
  taken := by simp [sinceOwn]
  notStarted := rfl
  enabled := rfl

/-- OPcache takes this provider unless it has one or has started. -/
theorem registrationRefused_ahe (s : Opcache) :
    s.registrationRefused (some aheOpcacheProvider) = (s.started || s.providerRegistered) := by
  unfold Opcache.registrationRefused
  cases s.started <;> cases s.providerRegistered <;> decide

theorem exists_mem_concat {P : ZendExtension × Bool → Prop} {after : Loads}
    {l : ZendExtension × Bool} : (∃ l' ∈ after ++ [l], P l') ↔ (∃ l' ∈ after, P l') ∨ P l := by
  simp [or_and_right, exists_or]

/-- What the extension makes of one load it hears of. -/
theorem messageHandler_heard (hnotStarted : s.opcache.started = false) (l : ZendExtension × Bool) :
    let s' := s.messageHandler zendExtmsgNewExtension (some l.1) l.2
    (s'.opcacheSeen = true ↔ s.opcacheSeen = true ∨ l.1.name = opcacheName) ∧
      (s'.opcacheProviderRegistered = true → s.opcacheProviderRegistered = true ∨ Registers l) ∧
      (s.opcache.providerRegistered = true ∨ Registers l → s'.opcache.providerRegistered = true) ∧
      s'.opcache.started = false := by
  dsimp only
  by_cases hname : l.1.name = opcacheName
  · cases hhandle : l.1.handle with
    | none => simp [messageHandler, hname, hhandle, Registers, hnotStarted]
    | some n =>
        cases hexported : l.2 with
        | false => simp [messageHandler, hname, hhandle, Registers, hexported, hnotStarted]
        | true =>
            have hrefused := registrationRefused_ahe s.opcache
            rw [hnotStarted, Bool.false_or] at hrefused
            cases hknown : s.opcache.providerRegistered <;> rw [hknown] at hrefused <;>
              simp [messageHandler, hname, hhandle, hrefused, Opcache.register, Opcache.emit,
                hnotStarted, hknown, Registers, hexported]
  · simp [messageHandler, hname, Registers, hnotStarted]

theorem Heard.load {loaded : Loads} (h : s.Heard loaded) (l : ZendExtension × Bool)
    (hfresh : ∀ e ∈ s.extensions, e.name ≠ l.1.name) : (s.load l.1 l.2).Heard (loaded ++ [l]) := by
  have hextensions : (s.load l.1 l.2).extensions = (loaded ++ [l]).map (·.1) := by
    have hsame := (dispatchMessage_objects s l.1 l.2).1
    simp only [Engine.load, hsame, h.extensions, List.map_append, List.map_cons, List.map_nil]
  have honce : ((loaded ++ [l]).map (·.1.name)).Nodup := by
    rw [List.map_append, List.map_cons, List.map_nil, ← List.concat_eq_append, List.nodup_concat]
    refine ⟨?_, h.once⟩
    intro hmem
    obtain ⟨l', hl', hname⟩ := List.mem_map.mp hmem
    refine hfresh l'.1 ?_ hname
    rw [h.extensions]
    exact List.mem_map_of_mem hl'
  by_cases hself : ∃ l' ∈ loaded, l'.1.name = aheName
  · have hears : s.dispatchMessage l.1 l.2 =
        s.messageHandler zendExtmsgNewExtension (some l.1) l.2 := by
      have hany : (s.extensions.any fun e => e.name = aheName) = true := by
        obtain ⟨l', hl', hname⟩ := hself
        rw [h.extensions, List.any_eq_true]
        exact ⟨l'.1, List.mem_map_of_mem hl', by simpa using hname⟩
      rw [dispatchMessage, if_pos hany]
    obtain ⟨hseen, hregistered, htaken, hnotStarted⟩ := messageHandler_heard h.notStarted l
    have henabled := messageHandler_enabled s zendExtmsgNewExtension (some l.1) l.2
    rw [← hears] at hseen hregistered htaken hnotStarted henabled
    refine ⟨hextensions, honce, ?_, ?_, ?_, hnotStarted, henabled.trans h.enabled⟩
    · rw [sinceOwn_of_mem hself, exists_mem_concat, ← h.seen]
      exact hseen
    · rw [sinceOwn_of_mem hself, exists_mem_concat]
      exact fun hreg => (hregistered hreg).imp_left h.registered
    · rw [sinceOwn_of_mem hself, exists_mem_concat]
      exact fun hreg => htaken (hreg.imp_left h.taken)
  · have hothers : ∀ l' ∈ loaded, l'.1.name ≠ aheName := fun l' hl' hname => hself ⟨l', hl', hname⟩
    have hdeaf : s.dispatchMessage l.1 l.2 = s := by
      have hnone : (s.extensions.any fun e => e.name = aheName) = false := by
        rw [h.extensions, List.any_eq_false]
        intro e he
        obtain ⟨l', hl', rfl⟩ := List.mem_map.mp he
        simpa using hothers l' hl'
      rw [dispatchMessage, hnone]
      rfl
    have hempty : sinceOwn loaded = [] := by
      rcases loaded.eq_nil_or_concat with rfl | ⟨rest, last, rfl⟩
      · rfl
      · rw [List.concat_eq_append] at hothers ⊢
        exact sinceOwn_of_not_mem (fun l hl => hothers l (List.mem_append_left _ hl)) last
    have hsilent := sinceOwn_of_not_mem hothers l
    refine ⟨hextensions, honce, ?_, ?_, ?_, ?_, ?_⟩
    · rw [hsilent, ← hempty, Engine.load, hdeaf]
      exact h.seen
    · rw [hsilent, ← hempty, Engine.load, hdeaf]
      exact h.registered
    · rw [hsilent, ← hempty, Engine.load, hdeaf]
      exact h.taken
    · rw [Engine.load, hdeaf]
      exact h.notStarted
    · rw [Engine.load, hdeaf]
      exact h.enabled

/-- Another provider comes, and is taken or not. -/
theorem Heard.register {loaded : Loads} (h : s.Heard loaded) (provider : Option ShmProviderV2) :
    ({ s with opcache := s.opcache.register provider } : Engine).Heard loaded where
  extensions := h.extensions
  once := h.once
  seen := h.seen
  registered := h.registered
  taken := by
    intro htaken
    have hknown := h.taken htaken
    unfold Opcache.register
    split
    · exact hknown
    · rfl
  notStarted := by
    have hsame : (s.opcache.register provider).started = s.opcache.started := by
      unfold Opcache.register
      split <;> rfl
    exact hsame.trans h.notStarted
  enabled := h.enabled

/-- A run of PHP's life cycle. -/
abbrev Run (p : PhpProcess) (sizeofSharedGlobals : UInt64) (ours : Nat) :
    Engine → List Label → Engine → Prop :=
  Execution.Run (Execution.Guarded (Step p sizeofSharedGlobals) (Permitted ours))

theorem Run.reachable {labels : List Label} (h : Run p sizeofSharedGlobals ours start labels s) :
    Reachable p sizeofSharedGlobals ours s :=
  ⟨start, labels, rfl, h⟩

theorem Run.heard {labels : List Label} (h : Run p sizeofSharedGlobals ours start labels s) :
    s.stage = .loading → s.Heard (loads labels) := by
  induction h with
  | start => exact fun _ => heard_start
  | @next labels s label t _ hlast ih =>
      obtain ⟨hpermitted, rfl⟩ := hlast
      intro hloading
      rw [loads, List.filterMap_append]
      cases label with
      | load e exported =>
          exact (ih hpermitted.1).load (e, exported) hpermitted.2.1
      | opcache call =>
          have hstage : s.stage = .loading := hloading
          obtain ⟨-, hcall⟩ := hpermitted
          cases call with
          | register provider =>
              rw [List.filterMap_cons_none rfl, List.filterMap_nil, List.append_nil]
              exact (ih hstage).register provider
          | startup | startupComplete | startupAborted | lock | unlock | shutdown =>
              exact absurd hstage hcall
      | startExtensions | destroyExtensions => cases hloading

/-- The startups of others take those that fail off the list. -/
structure OthersStarted (starts : String → Bool) (names : List String) (s s' : Engine) : Prop where
  seen : s'.opcacheSeen = s.opcacheSeen
  registered : s'.opcacheProviderRegistered = s.opcacheProviderRegistered
  enabled : s'.opcacheProviderEnabled = s.opcacheProviderEnabled
  extensions : ∀ e, e ∈ s'.extensions ↔ e ∈ s.extensions ∧ (e.name ∈ names → starts e.name = true)

theorem othersStarted (p : PhpProcess) (starts : String → Bool) {names : List String}
    (hnames : aheName ∉ names) (s : Engine) :
    OthersStarted starts names s (names.foldl (startOne p starts) s) := by
  induction names generalizing s with
  | nil => exact ⟨rfl, rfl, rfl, fun e => by simp⟩
  | cons name rest ih =>
      obtain ⟨hname, hrest⟩ := List.ne_and_not_mem_of_not_mem_cons hnames
      have hother := ih hrest (startOne p starts s name)
      have hone : startOne p starts s name = if starts name then s else s.remove name := by
        rw [startOne, if_neg (Ne.symm hname)]
      rw [List.foldl_cons]
      rw [hone] at hother ⊢
      cases hstarts : starts name with
      | true =>
          rw [hstarts, if_pos rfl] at hother
          rw [if_pos rfl]
          refine ⟨hother.seen, hother.registered, hother.enabled, fun e => ?_⟩
          rw [hother.extensions e, List.mem_cons]
          refine and_congr_right fun _ => ⟨fun h hin => ?_, fun h hin => h (.inr hin)⟩
          rcases hin with heq | hin
          · rw [heq]
            exact hstarts
          · exact h hin
      | false =>
          rw [hstarts, if_neg (by decide)] at hother
          rw [if_neg (by decide)]
          refine ⟨hother.seen, hother.registered, hother.enabled, fun e => ?_⟩
          rw [hother.extensions e, List.mem_cons]
          simp only [remove, List.mem_filter, decide_eq_true_eq, and_assoc]
          refine and_congr_right fun _ => ⟨?_, fun h => ⟨fun heq => ?_, fun hin => h (.inr hin)⟩⟩
          · rintro ⟨hne, h⟩ (heq | hin)
            · exact absurd heq hne
            · exact h hin
          · have hstarted := h (.inl heq)
            rw [heq, hstarts] at hstarted
            cases hstarted

/-- What the extension's own startup needs. -/
theorem startup_enabled_iff (h : s.opcacheProviderEnabled = false) :
    (s.startOne p starts aheName).opcacheProviderEnabled = true ↔ p.verifyAslrContract = true ∧
      (s.opcacheProviderRegistered = true ∨ s.opcacheSeen = false ∧ s.opcacheIsLoaded = false) := by
  have hone : (s.startOne p starts aheName).opcacheProviderEnabled =
      (s.startup p).1.opcacheProviderEnabled := by
    unfold startOne
    rw [if_pos rfl]
    dsimp only
    split <;> rfl
  rw [hone, startup]
  cases s.opcacheProviderRegistered <;> cases s.opcacheSeen <;> cases s.opcacheIsLoaded <;>
    cases p.verifyAslrContract <;> simp [warn, clearHandle, h]

/-- After the startup of the extensions nobody enables the provider or disables it. -/
theorem Run.enabled_eq {s t : Engine} {labels : List Label}
    (h : Run p sizeofSharedGlobals ours s labels t) (hstarted : s.stage ≠ .loading) :
    t.stage ≠ .loading ∧ t.opcacheProviderEnabled = s.opcacheProviderEnabled := by
  induction h with
  | start => exact ⟨hstarted, rfl⟩
  | @next labels u label t _ hlast ih =>
      obtain ⟨hpermitted, rfl⟩ := hlast
      obtain ⟨hstage, hsame⟩ := ih
      cases label with
      | load e exported => exact absurd hpermitted.1 hstage
      | startExtensions starts => exact absurd hpermitted hstage
      | opcache call => exact ⟨hstage, hsame⟩
      | destroyExtensions => exact ⟨fun hloading => (by cases hloading), hsame⟩

/-- OPcache has no provider but this extension's. -/
def Unrivalled (s : Engine) : Prop :=
  s.opcache.providerRegistered = true → s.opcache.provider = aheOpcacheProvider

/-- OPcache gets a provider from the extension's message handler only with its knowledge. -/
theorem messageHandler_known (message : Int) (arg : Option ZendExtension) (exported : Bool)
    (h : s.opcache.providerRegistered = true → s.opcacheProviderRegistered = true) :
    (s.messageHandler message arg exported).opcache.providerRegistered = true →
      (s.messageHandler message arg exported).opcacheProviderRegistered = true := by
  unfold messageHandler
  split
  · exact h
  · dsimp only
    split
    · exact h
    · split
      · exact h
      · split
        · exact h
        · split
          · exact h
          · split
            · next hrefused =>
                simp only [Opcache.register, hrefused, if_true]
                exact h
            · exact fun _ => rfl

/-- Where nobody else calls the registration function. -/
theorem Run.unrivalled {labels : List Label}
    (h : Run p sizeofSharedGlobals ours start labels s)
    (hnone : ∀ provider, .opcache (.register provider) ∉ labels) : s.Unrivalled := by
  have hknown : s.opcache.providerRegistered = true → s.opcacheProviderRegistered = true := by
    induction h with
    | start => exact fun hregistered => by cases hregistered
    | @next labels u label t hrun hlast ih =>
        obtain ⟨hpermitted, rfl⟩ := hlast
        have hu := ih fun provider hmem => hnone provider (List.mem_append_left _ hmem)
        cases label with
        | load e exported =>
            change (u.dispatchMessage e exported).opcache.providerRegistered = true →
              (u.dispatchMessage e exported).opcacheProviderRegistered = true
            unfold dispatchMessage
            split
            · exact messageHandler_known _ _ _ hu
            · exact hu
        | startExtensions starts =>
            have hheld := (Run.reachable hrun).managed.held
            obtain ⟨-, hsame, -⟩ := Held.startAll p starts (u.extensions.map (·.name)) hheld
            intro hregistered
            refine hsame.trans (hu ?_)
            have hopcache := startAll_opcache p starts (u.extensions.map (·.name)) u
            exact (congrArg (·.providerRegistered) hopcache).symm.trans hregistered
        | opcache call =>
            have hother : ∀ provider, call ≠ .register provider := by
              rintro provider rfl
              exact hnone provider (List.mem_append_right _ List.mem_cons_self)
            intro hregistered
            exact hu ((step_provider sizeofSharedGlobals u.opcache hother).2.symm.trans hregistered)
        | destroyExtensions => exact hu
  have hlinked := h.reachable.managed.linked
  exact fun hregistered => hlinked.provider.mp (hknown hregistered)

section Order

variable {labels later : List Label} {before after : Loads} {own : ZendExtension × Bool} {t : Engine}

/-- The extension lets OPcache use the broker exactly if the process passes the check and OPcache
took its provider, or there is none by then. -/
theorem Run.enabled_iff (hrun : Run p sizeofSharedGlobals ours start labels s)
    (hloading : s.stage = .loading) (hloads : loads labels = before ++ own :: after)
    (hown : own.1.name = aheName) :
    (s.startExtensions p starts).opcacheProviderEnabled = true ↔
      p.verifyAslrContract = true ∧ (s.opcacheProviderRegistered = true ∨
        (∀ l ∈ after, l.1.name ≠ opcacheName) ∧
          ((∃ l ∈ before, l.1.name = opcacheName) → starts opcacheName = false)) := by
  have hheard := hrun.heard hloading
  rw [hloads] at hheard
  have hdistinct := hheard.once
  rw [List.map_append, List.map_cons, hown, List.nodup_append] at hdistinct
  obtain ⟨-, hlater, hearlier⟩ := hdistinct
  have hbeforeNames : aheName ∉ before.map (·.1.name) :=
    fun hmem => hearlier _ hmem _ List.mem_cons_self rfl
  have hafterNames : aheName ∉ after.map (·.1.name) := (List.nodup_cons.mp hlater).1
  have hbefore : ∀ l ∈ before, l.1.name ≠ aheName :=
    fun l hl hname => hbeforeNames (List.mem_map.mpr ⟨l, hl, hname⟩)
  have hnames : s.extensions.map (·.name) =
      before.map (·.1.name) ++ aheName :: after.map (·.1.name) := by
    rw [hheard.extensions]
    simp [Function.comp_def, hown]
  have hfirst := othersStarted p starts hbeforeNames s
  rw [startExtensions]
  dsimp only
  rw [hnames, List.foldl_append, List.foldl_cons]
  have hlast := othersStarted p starts hafterNames (startOne p starts
    ((before.map (·.1.name)).foldl (startOne p starts) s) aheName)
  rw [hlast.enabled, startup_enabled_iff (hfirst.enabled.trans hheard.enabled), hfirst.registered,
    hfirst.seen]
  refine and_congr_right fun _ => or_congr_right ?_
  have hseen : s.opcacheSeen = false ↔ ∀ l ∈ after, l.1.name ≠ opcacheName := by
    rw [← Bool.not_eq_true, hheard.seen, sinceOwn_split hbefore hown]
    push Not
    rfl
  rw [hseen]
  refine and_congr_right fun hnone => ?_
  rw [opcacheIsLoaded, List.any_eq_false]
  constructor
  · rintro hunlisted ⟨l, hl, hname⟩
    by_contra hstarts
    refine hunlisted l.1 ((hfirst.extensions l.1).mpr ⟨?_, fun _ => ?_⟩) (by simpa using hname)
    · rw [hheard.extensions]
      exact List.mem_map_of_mem (by simp [hl])
    · rw [hname]
      simpa using hstarts
  · intro hfailed e he hname
    have hopcache : e.name = opcacheName := by simpa using hname
    obtain ⟨hin, hstarts⟩ := (hfirst.extensions e).mp he
    rw [hheard.extensions] at hin
    obtain ⟨l, hl, rfl⟩ := List.mem_map.mp hin
    rcases List.mem_append.mp hl with hearly | hlate
    · have hstarted := hstarts (List.mem_map.mpr ⟨l, hearly, rfl⟩)
      rw [hopcache, hfailed ⟨l, hearly, hopcache⟩] at hstarted
      cases hstarted
    · rcases List.mem_cons.mp hlate with rfl | hrest
      · exact absurd (hown.symm.trans hopcache) aheName_ne
      · exact hnone l hrest hopcache

/-- Where no other provider is registered when the extensions are started: the extension lets
OPcache use the broker exactly if the process passes the check and OPcache, if there is one, was
loaded after it, from a shared object that takes providers; an OPcache from before it must have
failed. -/
theorem enabled_iff_order (hrun : Run p sizeofSharedGlobals ours start labels s)
    (hloading : s.stage = .loading) (hunrivalled : s.Unrivalled)
    (hloads : loads labels = before ++ own :: after) (hown : own.1.name = aheName)
    (hlater : Run p sizeofSharedGlobals ours
      (s.step p sizeofSharedGlobals (.startExtensions starts)) later t) :
    t.opcacheProviderEnabled = true ↔
      p.verifyAslrContract = true ∧ ((∃ l ∈ after, Registers l) ∨
        (∀ l ∈ after, l.1.name ≠ opcacheName) ∧
          ((∃ l ∈ before, l.1.name = opcacheName) → starts opcacheName = false)) := by
  have hheard := hrun.heard hloading
  have hlinked := hrun.reachable.managed.linked
  have hsince : sinceOwn (loads labels) = after := by
    rw [hloads]
    refine sinceOwn_split ?_ hown after
    intro l hl hname
    have hdistinct := hheard.once
    rw [hloads, List.map_append, List.map_cons, hown, List.nodup_append] at hdistinct
    exact hdistinct.2.2 _ (List.mem_map.mpr ⟨l, hl, hname⟩) _ List.mem_cons_self rfl
  have hregistered : s.opcacheProviderRegistered = true ↔ ∃ l ∈ after, Registers l := by
    rw [← hsince]
    exact ⟨hheard.registered, fun htakes => hlinked.provider.mpr (hunrivalled (hheard.taken htakes))⟩
  rw [(hlater.enabled_eq (fun hstage => by cases hstage)).2, ← hregistered]
  exact hrun.enabled_iff hloading hloads hown

end Order

/-- A process as the launcher leaves it. -/
def launched : PhpProcess := ⟨addrNoRandomize, true, true, none⟩

theorem run_own_first : Run launched 64 1 start
    [.load ⟨aheName, some 1⟩ false, .load ⟨opcacheName, some 2⟩ true]
    ((start.load ⟨aheName, some 1⟩ false).load ⟨opcacheName, some 2⟩ true) := by
  have hself : Permitted 1 start (.load ⟨aheName, some 1⟩ false) :=
    ⟨rfl, by simp [start], by simp [start], by simp⟩
  have hopcache : Permitted 1 (start.load ⟨aheName, some 1⟩ false)
      (.load ⟨opcacheName, some 2⟩ true) :=
    ⟨rfl, by decide, by decide, by decide⟩
  exact (Execution.Run.single ⟨hself, rfl⟩).next ⟨hopcache, rfl⟩

theorem run_opcache_first : Run launched 64 1 start
    [.load ⟨opcacheName, some 2⟩ true, .load ⟨aheName, some 1⟩ false]
    ((start.load ⟨opcacheName, some 2⟩ true).load ⟨aheName, some 1⟩ false) := by
  have hopcache : Permitted 1 start (.load ⟨opcacheName, some 2⟩ true) :=
    ⟨rfl, by simp [start], by simp [start], by decide⟩
  have hself : Permitted 1 (start.load ⟨opcacheName, some 2⟩ true)
      (.load ⟨aheName, some 1⟩ false) :=
    ⟨rfl, by decide, by decide, by simp⟩
  exact (Execution.Run.single ⟨hopcache, rfl⟩).next ⟨hself, rfl⟩

/-- Under the launcher an OPcache that takes providers may come after the extension, but not
before it. -/
theorem enabled_iff_order_twice :
    (((start.load ⟨aheName, some 1⟩ false).load ⟨opcacheName, some 2⟩ true).startExtensions
        launched fun _ => true).opcacheProviderEnabled = true ∧
      ¬ (((start.load ⟨opcacheName, some 2⟩ true).load ⟨aheName, some 1⟩ false).startExtensions
        launched fun _ => true).opcacheProviderEnabled = true := by
  constructor
  · have hloads : loads [.load ⟨aheName, some 1⟩ false, .load ⟨opcacheName, some 2⟩ true] =
        [] ++ (⟨aheName, some 1⟩, false) :: [(⟨opcacheName, some 2⟩, true)] := rfl
    exact (enabled_iff_order run_own_first (by decide) (run_own_first.unrivalled (by simp)) hloads
      rfl .start).mpr ⟨by decide, .inl ⟨_, List.mem_cons_self, rfl, by decide, rfl⟩⟩
  · intro h
    have hloads : loads [.load ⟨opcacheName, some 2⟩ true, .load ⟨aheName, some 1⟩ false] =
        [(⟨opcacheName, some 2⟩, true)] ++ (⟨aheName, some 1⟩, false) :: [] := rfl
    obtain ⟨-, htakes | ⟨-, hfailed⟩⟩ := (enabled_iff_order run_opcache_first (by decide)
      (run_opcache_first.unrivalled (by simp)) hloads rfl .start).mp h
    · obtain ⟨l, hl, -⟩ := htakes
      cases hl
    · exact absurd (hfailed ⟨_, List.mem_cons_self, rfl⟩) (by decide)

end Engine

end Hyperglyph
