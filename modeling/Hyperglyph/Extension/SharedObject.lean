import Hyperglyph.Extension.Engine

/-! The shared objects of the extensions: PHP unloads each exactly once, but for the one whose
callbacks OPcache has. -/
namespace Hyperglyph

namespace Engine

variable {p : PhpProcess} {sizeofSharedGlobals : UInt64} {ours : Nat} {s : Engine} {name : String}
  {starts : String → Bool}

/-- The shared objects the list of extensions would unload. -/
def handles (s : Engine) : List Nat := s.extensions.filterMap (·.handle)

/-- Every shared object is on the list, unloaded, or the one that OPcache needs. -/
structure Held (ours : Nat) (s : Engine) : Prop where
  owner : ∀ e ∈ s.extensions, e.handle = some ours → e.name = aheName
  ownHandle : ∀ e ∈ s.extensions, e.name = aheName → ∀ h, e.handle = some h → h = ours
  once : (s.unloaded ++ s.handles).Nodup
  opened : ∀ h ∈ s.unloaded ++ s.handles, h ∈ s.opened
  accounted : ∀ h ∈ s.opened, h ∈ s.unloaded ++ s.handles ∨
    h = ours ∧ s.opcacheProviderRegistered = true
  safe : s.opcacheProviderRegistered = true → ours ∉ s.unloaded

theorem held_start : start.Held ours where
  owner := by simp [start]
  ownHandle := by simp [start]
  once := by simp [start, handles]
  opened := by simp [start, handles]
  accounted := by simp [start]
  safe := by simp [start]

/-- What the warnings say and what OPcache does moves no shared object. -/
theorem Held.of_objects {s' : Engine} (h : s.Held ours) (hextensions : s'.extensions = s.extensions)
    (hopened : s'.opened = s.opened) (hunloaded : s'.unloaded = s.unloaded)
    (hregistered : s'.opcacheProviderRegistered = s.opcacheProviderRegistered) : s'.Held ours := by
  have hhandles : s'.handles = s.handles := by rw [handles, handles, hextensions]
  constructor
  · rw [hextensions]
    exact h.owner
  · rw [hextensions]
    exact h.ownHandle
  · rw [hunloaded, hhandles]
    exact h.once
  · rw [hunloaded, hhandles, hopened]
    exact h.opened
  · rw [hunloaded, hhandles, hopened, hregistered]
    exact h.accounted
  · rw [hunloaded, hregistered]
    exact h.safe

/-! ### Loading -/

/-- What the message handler changes of the extension's own state. -/
theorem messageHandler_objects (s : Engine) (message : Int) (arg : Option ZendExtension)
    (exported : Bool) : (s.messageHandler message arg exported).extensions = s.extensions ∧
      (s.messageHandler message arg exported).opened = s.opened ∧
      (s.messageHandler message arg exported).unloaded = s.unloaded ∧
      (s.opcacheProviderRegistered = true →
        (s.messageHandler message arg exported).opcacheProviderRegistered = true) := by
  unfold messageHandler
  split
  · exact ⟨rfl, rfl, rfl, id⟩
  · dsimp only
    repeat' split
    all_goals first | exact ⟨rfl, rfl, rfl, id⟩ | exact ⟨rfl, rfl, rfl, fun _ => rfl⟩

theorem dispatchMessage_objects (s : Engine) (e : ZendExtension) (exported : Bool) :
    (s.dispatchMessage e exported).extensions = s.extensions ∧
      (s.dispatchMessage e exported).opened = s.opened ∧
      (s.dispatchMessage e exported).unloaded = s.unloaded ∧
      (s.opcacheProviderRegistered = true →
        (s.dispatchMessage e exported).opcacheProviderRegistered = true) := by
  unfold dispatchMessage
  split
  · exact messageHandler_objects s _ _ _
  · exact ⟨rfl, rfl, rfl, id⟩

theorem dispatchMessage_stage (s : Engine) (e : ZendExtension) (exported : Bool) :
    (s.dispatchMessage e exported).stage = s.stage := by
  unfold dispatchMessage messageHandler
  dsimp only
  repeat' split
  all_goals rfl

theorem Held.load (h : s.Held ours) {e : ZendExtension} (exported : Bool) (hempty : s.unloaded = [])
    (hfresh : ∀ n, e.handle = some n → n ∉ s.opened)
    (hself : e.name = aheName ↔ e.handle = some ours) : (s.load e exported).Held ours := by
  obtain ⟨hextensions, hopened, hunloaded, hregistered⟩ := dispatchMessage_objects s e exported
  have hhandles : (s.load e exported).handles = s.handles ++ e.handle.toList := by
    simp only [Engine.load, handles, hextensions, List.filterMap_append]
    cases hhandle : e.handle <;> simp [hhandle]
  have hnone : (s.load e exported).unloaded = [] := hunloaded.trans hempty
  have hold : (s.load e exported).opened = s.opened ++ e.handle.toList := by simp only [Engine.load, hopened]
  have hnodup := h.once
  have hin := h.opened
  have haccounted := h.accounted
  rw [hempty, List.nil_append] at hnodup hin haccounted
  refine ⟨?_, ?_, ?_, ?_, ?_, ?_⟩
  · intro e' he' hhandle
    simp only [Engine.load, hextensions] at he'
    rcases List.mem_append.mp he' with hbefore | hnew
    · exact h.owner e' hbefore hhandle
    · obtain rfl := List.mem_singleton.mp hnew
      exact hself.mpr hhandle
  · intro e' he' hname n hhandle
    simp only [Engine.load, hextensions] at he'
    rcases List.mem_append.mp he' with hbefore | hnew
    · exact h.ownHandle e' hbefore hname n hhandle
    · obtain rfl := List.mem_singleton.mp hnew
      rw [hself.mp hname] at hhandle
      exact (Option.some_inj.mp hhandle).symm
  · rw [hnone, hhandles, List.nil_append]
    cases hhandle : e.handle with
    | none => simpa using hnodup
    | some n =>
        have hnew : n ∉ s.handles := fun hmem => hfresh n hhandle (hin n hmem)
        simpa [List.nodup_append] using ⟨hnodup, fun a ha heq => hnew (heq ▸ ha)⟩
  · intro n hn
    rw [hnone, hhandles, List.nil_append] at hn
    rw [hold]
    rcases List.mem_append.mp hn with hbefore | hnew
    · exact List.mem_append_left _ (hin n hbefore)
    · exact List.mem_append_right _ hnew
  · intro n hn
    rw [hold] at hn
    rw [hnone, hhandles, List.nil_append]
    rcases List.mem_append.mp hn with hbefore | hnew
    · rcases haccounted n hbefore with hhandle | ⟨heq, hreg⟩
      · exact .inl (List.mem_append_left _ hhandle)
      · exact .inr ⟨heq, hregistered hreg⟩
    · exact .inl (List.mem_append_right _ hnew)
  · intro _
    rw [hnone]
    exact List.not_mem_nil

/-! ### Startup -/

/-- An extension is taken off the list. -/
theorem Held.remove (h : s.Held ours) (hkeep : s.opcacheProviderRegistered = true →
    ∀ e ∈ s.extensions, e.name = name → e.handle ≠ some ours) : (s.remove name).Held ours := by
  have hmoved : ((s.remove name).unloaded ++ (s.remove name).handles).Perm
      (s.unloaded ++ s.handles) := by
    have hsplit := (List.filter_append_perm (fun e : ZendExtension => decide (e.name = name))
      s.extensions).filterMap (·.handle)
    simp only [List.filterMap_append, ← decide_not] at hsplit
    simp only [Engine.remove, handles, List.append_assoc]
    exact hsplit.append_left s.unloaded
  refine ⟨?_, ?_, hmoved.nodup_iff.mpr h.once, ?_, ?_, ?_⟩
  · intro e he
    exact h.owner e (List.mem_of_mem_filter he)
  · intro e he
    exact h.ownHandle e (List.mem_of_mem_filter he)
  · exact fun n hn => h.opened n (hmoved.mem_iff.mp hn)
  · intro n hn
    rw [hmoved.mem_iff]
    exact h.accounted n hn
  · intro hregistered hmem
    rcases List.mem_append.mp hmem with hold | hnew
    · exact h.safe hregistered hold
    · obtain ⟨e, he, hhandle⟩ := List.mem_filterMap.mp hnew
      obtain ⟨hin, hname⟩ := List.mem_filter.mp he
      exact hkeep hregistered e hin (of_decide_eq_true hname) hhandle

/-- Without its handle the extension is nothing PHP could unload. -/
theorem Held.handles_clearHandle (h : s.Held ours) :
    s.clearHandle.handles = s.handles.filter (· ≠ ours) := by
  obtain ⟨howner, howned, -⟩ := h
  unfold handles Engine.clearHandle
  dsimp only
  generalize s.extensions = entries at howner howned ⊢
  induction entries with
  | nil => rfl
  | cons e rest ih =>
      obtain ⟨hfirst, hrest⟩ := List.forall_mem_cons.mp howner
      obtain ⟨hfirst', hrest'⟩ := List.forall_mem_cons.mp howned
      have htail := ih hrest hrest'
      rw [List.map_cons]
      by_cases hname : e.name = aheName
      · rw [if_pos hname, List.filterMap_cons_none rfl, htail]
        cases hhandle : e.handle with
        | none => rw [List.filterMap_cons_none hhandle]
        | some n => rw [List.filterMap_cons_some hhandle, hfirst' hname n hhandle]; simp
      · rw [if_neg hname]
        cases hhandle : e.handle with
        | none => rw [List.filterMap_cons_none hhandle, List.filterMap_cons_none hhandle, htail]
        | some n =>
            have hne : n ≠ ours := fun heq => hname (hfirst (heq ▸ hhandle))
            rw [List.filterMap_cons_some hhandle, List.filterMap_cons_some hhandle, htail,
              List.filter_cons_of_pos (by simpa using hne)]

theorem Held.clearHandle (h : s.Held ours) (hregistered : s.opcacheProviderRegistered = true) :
    s.clearHandle.Held ours := by
  have hhandles := h.handles_clearHandle
  have hentry : ∀ e ∈ s.clearHandle.extensions, e ∈ s.extensions ∨ e.handle = none := by
    intro e he
    obtain ⟨e', he', heq⟩ := List.mem_map.mp he
    split at heq
    · rw [← heq]
      exact .inr rfl
    · rw [← heq]
      exact .inl he'
  refine ⟨?_, ?_, ?_, ?_, ?_, h.safe⟩
  · intro e he hhandle
    rcases hentry e he with hold | hnone
    · exact h.owner e hold hhandle
    · rw [hnone] at hhandle
      cases hhandle
  · intro e he hname n hhandle
    rcases hentry e he with hold | hnone
    · exact h.ownHandle e hold hname n hhandle
    · rw [hnone] at hhandle
      cases hhandle
  · rw [hhandles]
    exact h.once.sublist (List.Sublist.append (.refl _) List.filter_sublist)
  · intro n hn
    rw [hhandles] at hn
    refine h.opened n (List.mem_append.mpr ?_)
    exact (List.mem_append.mp hn).imp id List.mem_of_mem_filter
  · intro n hn
    rw [hhandles]
    by_cases heq : n = ours
    · exact .inr ⟨heq, hregistered⟩
    · refine (h.accounted n hn).imp_left fun hmem => ?_
      rcases List.mem_append.mp hmem with hgone | hheld
      · exact List.mem_append_left _ hgone
      · exact List.mem_append_right _ (List.mem_filter.mpr ⟨hheld, by simpa using heq⟩)

/-- What a startup does to the shared objects: nothing, if it fails before OPcache was found or
after; otherwise the handle is cleared, if OPcache has the callbacks. -/
theorem startup_objects (p : PhpProcess) (s : Engine) :
    (s.opcacheProviderRegistered = false ∨ (s.startup p).1.extensions = s.clearHandle.extensions) ∧
      (s.opcacheProviderRegistered = true ∨ (s.startup p).1.extensions = s.extensions) ∧
      (s.startup p).1.opened = s.opened ∧ (s.startup p).1.unloaded = s.unloaded ∧
      (s.startup p).1.opcacheProviderRegistered = s.opcacheProviderRegistered := by
  unfold startup
  cases hregistered : s.opcacheProviderRegistered with
  | false =>
      simp only [Bool.not_false, Bool.and_true, Bool.false_eq_true, if_false]
      repeat' split
      all_goals exact ⟨.inl trivial, .inr rfl, rfl, rfl, hregistered⟩
  | true =>
      simp only [Bool.not_true, Bool.and_false, Bool.false_eq_true, if_false, if_true]
      repeat' split
      all_goals exact ⟨.inr rfl, .inl trivial, rfl, rfl, hregistered⟩

theorem Held.startup (h : s.Held ours) (p : PhpProcess) : (s.startup p).1.Held ours := by
  obtain ⟨hcleared, hsame, hopened, hunloaded, hregistered⟩ := startup_objects p s
  cases hreg : s.opcacheProviderRegistered with
  | false => exact h.of_objects (hsame.resolve_left (by simp [hreg])) hopened hunloaded hregistered
  | true =>
      exact (h.clearHandle hreg).of_objects (hcleared.resolve_left (by simp [hreg])) hopened
        hunloaded hregistered

theorem handles_remove (s : Engine) (name : String) : (s.remove name).handles ⊆ s.handles := by
  intro n hn
  obtain ⟨e, he, hhandle⟩ := List.mem_filterMap.mp hn
  exact List.mem_filterMap.mpr ⟨e, List.mem_of_mem_filter he, hhandle⟩

/-- After its own startup nothing would unload an extension whose callbacks OPcache has. -/
theorem Held.startup_cleared (h : s.Held ours) (p : PhpProcess)
    (hregistered : s.opcacheProviderRegistered = true) :
    (s.startup p).1.handles = s.handles.filter (· ≠ ours) := by
  have hcleared := (startup_objects p s).1.resolve_left (by simp [hregistered])
  rw [← h.handles_clearHandle, handles, hcleared, handles]

/-- The startup of one extension, which may end with its removal. -/
theorem Held.startOne (h : s.Held ours) (p : PhpProcess) (starts : String → Bool) (name : String) :
    (s.startOne p starts name).Held ours ∧
      (s.startOne p starts name).opcacheProviderRegistered = s.opcacheProviderRegistered ∧
      (s.startOne p starts name).handles ⊆ s.handles ∧
      (name = aheName → s.opcacheProviderRegistered = true →
        ours ∉ (s.startOne p starts name).handles) := by
  by_cases hname : name = aheName
  · subst hname
    have hstarted := h.startup p
    obtain ⟨-, hsame, -, -, hregistered⟩ := startup_objects p s
    have hshrunk : (s.startup p).1.handles ⊆ s.handles := by
      cases hreg : s.opcacheProviderRegistered with
      | true =>
          rw [h.startup_cleared p hreg]
          exact List.filter_subset_self _
      | false =>
          rw [handles, hsame.resolve_left (by simp [hreg])]
          exact List.Subset.refl _
    have hcleared : s.opcacheProviderRegistered = true → ours ∉ (s.startup p).1.handles := by
      intro hreg
      rw [h.startup_cleared p hreg]
      simp
    unfold Engine.startOne
    rw [if_pos rfl]
    dsimp only
    split
    · exact ⟨hstarted, hregistered, hshrunk, fun _ => hcleared⟩
    · refine ⟨hstarted.remove ?_, hregistered, ?_, ?_⟩
      · intro hreg e he _ hhandle
        rw [hregistered] at hreg
        exact hcleared hreg (List.mem_filterMap.mpr ⟨e, he, hhandle⟩)
      · exact List.Subset.trans (handles_remove _ _) hshrunk
      · exact fun _ hreg hmem => hcleared hreg (handles_remove _ _ hmem)
  · unfold Engine.startOne
    rw [if_neg hname]
    dsimp only
    split
    · exact ⟨h, rfl, List.Subset.refl _, fun hours => absurd hours hname⟩
    · refine ⟨h.remove ?_, rfl, handles_remove s name, fun hours => absurd hours hname⟩
      intro _ e he hsame hhandle
      exact hname (hsame.symm.trans (h.owner e he hhandle))

/-- The startup of them all. -/
theorem Held.startAll (p : PhpProcess) (starts : String → Bool) (names : List String) :
    ∀ {s : Engine}, s.Held ours →
      (names.foldl (Engine.startOne p starts) s).Held ours ∧
        (names.foldl (Engine.startOne p starts) s).opcacheProviderRegistered =
          s.opcacheProviderRegistered ∧
        (s.opcacheProviderRegistered = true → (ours ∈ s.handles → aheName ∈ names) →
          ours ∉ (names.foldl (Engine.startOne p starts) s).handles) := by
  induction names with
  | nil => exact fun h => ⟨h, rfl, fun _ hin hmem => absurd (hin hmem) List.not_mem_nil⟩
  | cons name rest ih =>
      intro s h
      obtain ⟨hheld, hregistered, hshrunk, hcleared⟩ := h.startOne p starts name
      obtain ⟨hheld', hregistered', hcleared'⟩ := ih hheld
      refine ⟨hheld', hregistered'.trans hregistered, fun hreg hin => ?_⟩
      refine hcleared' (hregistered.trans hreg) fun hmem => ?_
      rcases List.mem_cons.mp (hin (hshrunk hmem)) with heq | hrest
      · exact absurd hmem (hcleared heq.symm hreg)
      · exact hrest

theorem startAll_opcache (p : PhpProcess) (starts : String → Bool) (names : List String) :
    ∀ s : Engine, (names.foldl (Engine.startOne p starts) s).opcache = s.opcache := by
  have hone : ∀ (s : Engine) (name : String), (s.startOne p starts name).opcache = s.opcache := by
    intro s name
    have hstartup : (s.startup p).1.opcache = s.opcache := by
      unfold Engine.startup
      repeat' split
      all_goals rfl
    unfold Engine.startOne
    by_cases hname : name = aheName
    · rw [if_pos hname]
      dsimp only
      split <;> exact hstartup
    · rw [if_neg hname]
      dsimp only
      split <;> rfl
  induction names with
  | nil => exact fun s => rfl
  | cons name rest ih => exact fun s => (ih _).trans (hone s name)

/-! ### Every reachable state -/

theorem Held.destroyExtensions (h : s.Held ours)
    (hcleared : s.opcacheProviderRegistered = true → ours ∉ s.handles) :
    s.destroyExtensions.Held ours := by
  have hnone : s.destroyExtensions.handles = [] := rfl
  refine ⟨fun e he => (by cases he), fun e he => (by cases he), ?_, ?_, ?_, ?_⟩
  · rw [hnone, List.append_nil]
    exact h.once
  · rw [hnone, List.append_nil]
    exact h.opened
  · rw [hnone, List.append_nil]
    exact h.accounted
  · intro hreg hmem
    rcases List.mem_append.mp hmem with hgone | hlast
    · exact h.safe hreg hgone
    · exact hcleared hreg hlast

/-- The provider OPcache has is the one of this extension. -/
structure Linked (s : Engine) : Prop where
  provider : s.opcacheProviderRegistered = true ↔ s.opcache.provider = aheOpcacheProvider
  registered : s.opcacheProviderRegistered = true → s.opcache.providerRegistered = true

theorem linked_start : start.Linked where
  provider := by decide
  registered := by decide

theorem Linked.of_same {s' : Engine} (h : s.Linked)
    (hregistered : s'.opcacheProviderRegistered = s.opcacheProviderRegistered)
    (hprovider : s'.opcache.provider = s.opcache.provider)
    (hknown : s'.opcache.providerRegistered = s.opcache.providerRegistered) : s'.Linked where
  provider := by
    rw [hregistered, hprovider]
    exact h.provider
  registered := by
    rw [hregistered, hknown]
    exact h.registered

theorem Linked.messageHandler (h : s.Linked) (message : Int) (arg : Option ZendExtension)
    (exported : Bool) : (s.messageHandler message arg exported).Linked := by
  unfold Engine.messageHandler
  split
  · exact h
  · dsimp only
    split
    · exact h
    · split
      · exact h
      · split
        · exact h.of_same rfl rfl rfl
        · split
          · exact h.of_same rfl rfl rfl
          · split
            · next hrefused =>
                simp only [Opcache.register, hrefused, if_true]
                exact h.of_same rfl rfl rfl
            · next haccepted =>
                simp only [Opcache.register, haccepted]
                exact ⟨⟨fun _ => rfl, fun _ => rfl⟩, fun _ => rfl⟩

theorem startupProvider_provider (sizeofSharedGlobals : UInt64) (s : Opcache) (a : StartupAnswers) :
    (s.startupProvider sizeofSharedGlobals a).1.provider = s.provider ∧
      (s.startupProvider sizeofSharedGlobals a).1.providerRegistered = s.providerRegistered := by
  have htried : (s.tryProvider sizeofSharedGlobals a).1.provider = s.provider ∧
      (s.tryProvider sizeofSharedGlobals a).1.providerRegistered = s.providerRegistered := by
    unfold Opcache.tryProvider
    dsimp only
    split <;> exact ⟨rfl, rfl⟩
  unfold Opcache.startupProvider
  split
  · generalize s.tryProvider sizeofSharedGlobals a = tried at htried ⊢
    obtain ⟨s', res⟩ := tried
    dsimp only
    split <;> exact htried
  · exact ⟨rfl, rfl⟩

theorem sharedAllocStartup_provider (sizeofSharedGlobals : UInt64) (s : Opcache)
    (a : StartupAnswers) :
    (s.sharedAllocStartup sizeofSharedGlobals a).provider = s.provider ∧
      (s.sharedAllocStartup sizeofSharedGlobals a).providerRegistered = s.providerRegistered := by
  have hentered := startupProvider_provider sizeofSharedGlobals
    { (s.emit [.startup]) with started := true } a
  unfold Opcache.sharedAllocStartup
  dsimp only
  generalize Opcache.startupProvider sizeofSharedGlobals
    { (s.emit [.startup]) with started := true } a = entered at hentered ⊢
  obtain ⟨s', res⟩ := entered
  dsimp only
  have hbuilt : (s'.startupBuiltin res a).1.provider = s'.provider ∧
      (s'.startupBuiltin res a).1.providerRegistered = s'.providerRegistered := by
    unfold Opcache.startupBuiltin
    repeat' split
    all_goals exact ⟨rfl, rfl⟩
  generalize s'.startupBuiltin res a = built at hbuilt ⊢
  obtain ⟨s'', result⟩ := built
  have hsame : s''.provider = s.provider ∧ s''.providerRegistered = s.providerRegistered :=
    ⟨hbuilt.1.trans hentered.1, hbuilt.2.trans hentered.2⟩
  cases result with
  | none => exact hsame
  | some res =>
      dsimp only
      unfold Opcache.startupGlobals
      repeat' split
      all_goals exact hsame

/-- Only a registration changes which provider OPcache has. -/
theorem step_provider (sizeofSharedGlobals : UInt64) (s : Opcache) {call : OpcacheCall}
    (hcall : ∀ provider, call ≠ .register provider) :
    (s.step sizeofSharedGlobals call).provider = s.provider ∧
      (s.step sizeofSharedGlobals call).providerRegistered = s.providerRegistered := by
  have hnotice : ∀ {s : Opcache} (reason : String),
      (s.providerStartupAborted reason).provider = s.provider ∧
        (s.providerStartupAborted reason).providerRegistered = s.providerRegistered := by
    intro s reason
    unfold Opcache.providerStartupAborted
    split <;> exact ⟨rfl, rfl⟩
  cases call with
  | register provider => exact absurd rfl (hcall provider)
  | startup a => exact sharedAllocStartup_provider _ s a
  | startupComplete reattached =>
      simp only [Opcache.step, Opcache.providerStartupComplete]
      split <;> exact ⟨rfl, rfl⟩
  | startupAborted reason => exact hnotice reason
  | lock granted =>
      simp only [Opcache.step, Opcache.sharedAllocLock]
      repeat' split
      all_goals exact ⟨rfl, rfl⟩
  | unlock granted =>
      simp only [Opcache.step, Opcache.sharedAllocUnlock]
      repeat' split
      all_goals exact ⟨rfl, rfl⟩
  | shutdown segments =>
      have hunfinished : s.abortUnfinished.provider = s.provider ∧
          s.abortUnfinished.providerRegistered = s.providerRegistered := by
        unfold Opcache.abortUnfinished
        split
        · exact hnotice _
        · exact ⟨rfl, rfl⟩
      simp only [Opcache.step, Opcache.sharedAllocShutdown]
      repeat' split
      all_goals exact hunfinished

/-- What holds of the shared objects in each stage. -/
structure Managed (ours : Nat) (s : Engine) : Prop where
  held : s.Held ours
  linked : s.Linked
  loading : s.stage = .loading → s.unloaded = []
  started : s.stage ≠ .loading → s.opcacheProviderRegistered = true → ours ∉ s.handles
  ended : s.stage = .destroyed → s.handles = []

theorem Linked.register (h : s.Linked) {provider : Option ShmProviderV2}
    (hother : provider ≠ some aheOpcacheProvider) :
    ({ s with opcache := s.opcache.register provider } : Engine).Linked := by
  cases hrefused : s.opcache.registrationRefused provider with
  | true =>
      simp only [Opcache.register, hrefused, if_true]
      exact h.of_same rfl rfl rfl
  | false =>
      have hours : s.opcacheProviderRegistered = false := by
        cases hreg : s.opcacheProviderRegistered with
        | false => rfl
        | true =>
            have hknown := h.registered hreg
            cases provider with
            | none => cases hrefused
            | some provider => simp [Opcache.registrationRefused, hknown] at hrefused
      simp only [Opcache.register, hrefused, Bool.false_eq_true, if_false]
      refine ⟨⟨fun hreg => ?_, fun heq => ?_⟩, fun _ => rfl⟩
      · rw [hours] at hreg
        cases hreg
      · cases provider with
        | none => cases hrefused
        | some provider => exact absurd (congrArg some heq) hother

theorem managed_start : start.Managed ours where
  held := held_start
  linked := linked_start
  loading := fun _ => rfl
  started := fun hstage => absurd rfl hstage
  ended := fun hstage => by cases hstage

theorem Managed.step (h : s.Managed ours) {label : Label} (hpermitted : s.Permitted ours label) :
    (s.step p sizeofSharedGlobals label).Managed ours := by
  cases label with
  | load e exported =>
      obtain ⟨hstage, -, hfresh, hours⟩ := hpermitted
      have hempty := h.loading hstage
      obtain ⟨-, -, hunloaded, -⟩ := dispatchMessage_objects s e exported
      have hlinked : (s.dispatchMessage e exported).Linked := by
        unfold Engine.dispatchMessage
        split
        · exact h.linked.messageHandler _ _ _
        · exact h.linked
      have hloading : (s.load e exported).stage = .loading :=
        (dispatchMessage_stage s e exported).trans hstage
      refine ⟨h.held.load exported hempty hfresh hours, hlinked.of_same rfl rfl rfl,
        fun _ => hunloaded.trans hempty, fun hne => absurd hloading hne, fun hover => ?_⟩
      rw [show (s.load e exported).stage = .destroyed from hover] at hloading
      cases hloading
  | startExtensions starts =>
      obtain ⟨hheld, hregistered, hcleared⟩ :=
        Held.startAll p starts (s.extensions.map (·.name)) h.held
      have hopcache := startAll_opcache p starts (s.extensions.map (·.name)) s
      refine ⟨hheld.of_objects rfl rfl rfl rfl, ?_, fun hstage => (by cases hstage), ?_,
        fun hstage => (by cases hstage)⟩
      · exact h.linked.of_same hregistered (congrArg (·.provider) hopcache)
          (congrArg (·.providerRegistered) hopcache)
      · intro _ hreg
        refine hcleared (hregistered.symm.trans hreg) fun hmem => ?_
        obtain ⟨e, he, hhandle⟩ := List.mem_filterMap.mp hmem
        exact List.mem_map.mpr ⟨e, he, h.held.owner e he hhandle⟩
  | opcache call =>
      have hlinked : ({ s with opcache := s.opcache.step sizeofSharedGlobals call } : Engine).Linked := by
        by_cases hcall : ∃ provider, call = .register provider
        · obtain ⟨provider, rfl⟩ := hcall
          exact h.linked.register hpermitted.2
        · obtain ⟨hprovider, hknown⟩ := step_provider sizeofSharedGlobals s.opcache
            fun provider heq => hcall ⟨provider, heq⟩
          exact h.linked.of_same rfl hprovider hknown
      exact ⟨h.held.of_objects rfl rfl rfl rfl, hlinked, h.loading, h.started, h.ended⟩
  | destroyExtensions =>
      have hstage : s.stage ≠ .loading := by
        rw [show s.stage = .started from hpermitted]
        decide
      refine ⟨h.held.destroyExtensions (h.started hstage), h.linked.of_same rfl rfl rfl,
        fun hloading => (by cases hloading), fun _ _ => List.not_mem_nil, fun _ => rfl⟩

theorem Reachable.managed (h : Reachable p sizeofSharedGlobals ours s) : s.Managed ours := by
  refine Execution.Reachable.invariant (I := Managed ours) ?_ ?_ h
  · rintro s rfl
    exact managed_start
  · rintro s label _ hs ⟨hpermitted, rfl⟩
    exact hs.step hpermitted

/-- A process that was told of a broker and runs at random addresses. -/
def randomized : PhpProcess where
  personality := 0
  personalityReadable := true
  expectNoAslr := false
  brokerSocket := some ⟨[115], fun h => absurd (List.mem_singleton.mp h) (by decide)⟩

def refusedLabels : List Label :=
  [.load ⟨aheName, some 1⟩ false, .load ⟨opcacheName, some 2⟩ true, .startExtensions fun _ => true,
    .destroyExtensions]

/-- The states these labels lead through are permitted ones. -/
theorem reachable_refused :
    Reachable randomized 64 1 (refusedLabels.foldl (step randomized 64) start) := by
  have hstart : Reachable randomized 64 1 start := .of_init rfl
  have hself : Permitted 1 start (.load ⟨aheName, some 1⟩ false) :=
    ⟨rfl, by simp [start], by simp [start], by simp⟩
  have hloaded := Execution.Reachable.tail hstart ⟨hself, rfl⟩
  have hopcache : Permitted 1 (start.load ⟨aheName, some 1⟩ false)
      (.load ⟨opcacheName, some 2⟩ true) :=
    ⟨rfl, by decide, by decide, by decide⟩
  have hregistered := Execution.Reachable.tail hloaded ⟨hopcache, rfl⟩
  have hstarts : Permitted 1 ((start.load ⟨aheName, some 1⟩ false).load ⟨opcacheName, some 2⟩ true)
      (.startExtensions fun _ => true) := rfl
  have hstarted := Execution.Reachable.tail hregistered ⟨hstarts, rfl⟩
  have hends : Permitted 1 (((start.load ⟨aheName, some 1⟩ false).load ⟨opcacheName, some 2⟩
      true).startExtensions randomized fun _ => true) .destroyExtensions := rfl
  exact Execution.Reachable.tail hstarted ⟨hends, rfl⟩

end Engine

end Hyperglyph
