import Hyperglyph.Client.Acquisition
import Hyperglyph.Client.CacheKey

/-! `ahe_create_segments` as a whole. When it fails PHP goes on with a cache of its own, so a
failure must leave nothing behind. -/
namespace Hyperglyph

open DescriptorTable Process

def aheName : String := "Abyssal Hyperglyph Engine: Gate of the Adamantine Oath"

/-- What a call of `ahe_create_segments` leaves behind, with the warning it prints. -/
structure CreateResult where
  process : Process
  broker : BrokerClient
  outputs : Outputs
  status : ShmStatus
  warning : Option String

/-- `ahe_create_segments`. -/
def createSegments (e : Environment) (p : Process) (broker : BrokerClient) (c : ConnId)
    (requestedSize : UInt64) (a : AcquireAnswers) : CreateResult :=
  match e.createCacheKey requestedSize with
  | .error errorIn => ⟨p, broker, { Outputs.cleared with errorIn }, .allocFailure, none⟩
  | .ok (socketPath, cacheKey) =>
      let (p, broker, outputs, status) := brokerClientAcquire p broker c e.effectiveUid socketPath
        cacheKey requestedSize .cleared a
      ⟨p, broker, outputs, status,
        if status = .allocFailure ∧ broker.timedOut = true then
          some (aheName ++
            ": the broker did not respond; using process-local OPcache for this invocation")
        else none⟩

/-- The mappings that are left, the last one first. -/
def Process.liveMappings (p : Process) : List (UInt64 × UInt64) :=
  p.memory.foldl (fun live e =>
    match e with
    | .mapped address size _ => (address, size) :: live
    | .unmapped address size => live.erase (address, size)
    | _ => live) []

/-- The broker was reached and did not answer in time. -/
def BrokerTimesOut (e : Environment) (p : Process) (c : ConnId) (requestedSize : UInt64)
    (a : AcquireAnswers) : Prop :=
  ∃ socketPath cacheKey, e.createCacheKey requestedSize = .ok (socketPath, cacheKey) ∧
    TimesOut p c e.effectiveUid socketPath cacheKey a

/-- The call failed, and apart from its note on the timeout nothing is left of it. -/
structure LeavesNothing (e : Environment) (p : Process) (c : ConnId) (requestedSize : UInt64)
    (a : AcquireAnswers) (r : CreateResult) : Prop where
  status : r.status = .allocFailure
  sharedSegments : r.outputs.sharedSegments = none
  sharedSegmentCount : r.outputs.sharedSegmentCount = 0
  reattachedSharedGlobals : r.outputs.reattachedSharedGlobals = 0
  closed : r.process.opened.Perm r.process.closed
  sound : ∀ fd, ProcessEvent.badUse fd ∉ r.process.log
  fds : r.process.fds = p.fds
  mappings : a.map.unmapped = true → r.process.liveMappings = []
  broker : r.broker = { BrokerClient.initializer with timedOut := r.broker.timedOut }
  timedOut : r.broker.timedOut = true ↔ BrokerTimesOut e p c requestedSize a
  warning : r.warning.isSome = r.broker.timedOut

theorem GaveUp.liveMappings {p₀ p : Process} (h : GaveUp p₀ p true) (hnone : p₀.memory = []) :
    p.liveMappings = [] := by
  unfold Process.liveMappings
  rcases h with hkept | ⟨address, size, o, hgone⟩
  · rw [hkept, hnone]
    rfl
  · rw [hgone, hnone]
    simp

section Failure

variable {e : Environment} {p : Process} {c : ConnId} {requestedSize : UInt64} {a : AcquireAnswers}

/-- The broker is not asked. -/
theorem leavesNothing_of_error {errorIn : Option String} (h : p.Holds p.fds [])
    (hquiet : p.memory = []) (hkey : e.createCacheKey requestedSize = .error errorIn) :
    LeavesNothing e p c requestedSize a (createSegments e p .initializer c requestedSize a) := by
  have hresult : createSegments e p .initializer c requestedSize a =
      ⟨p, .initializer, { Outputs.cleared with errorIn }, .allocFailure, none⟩ := by
    simp only [createSegments, hkey]
  have hnever : ¬ BrokerTimesOut e p c requestedSize a := by
    rintro ⟨socketPath, cacheKey, hok, -⟩
    cases hkey.symm.trans hok
  have hmappings : p.liveMappings = [] := by
    unfold liveMappings
    rw [hquiet]
    rfl
  rw [hresult]
  exact ⟨rfl, rfl, rfl, rfl, h.custody.settled.2, h.sound, rfl, fun _ => hmappings, rfl,
    iff_of_false Bool.false_ne_true hnever, rfl⟩

/-- The broker was asked, and the acquisition failed. -/
theorem leavesNothing_of_failure {socketPath cacheKey : List UInt8} {timedOut : Bool}
    {r : Process × BrokerClient × Outputs × ShmStatus}
    (hkey : e.createCacheKey requestedSize = .ok (socketPath, cacheKey))
    (hquiet : p.memory = [])
    (htimedOut : timedOut = true ↔ TimesOut p c e.effectiveUid socketPath cacheKey a)
    (h : AcquireFailed p.fds p timedOut a.map.unmapped r) :
    LeavesNothing e p c requestedSize a ⟨r.1, r.2.1, r.2.2.1, r.2.2.2,
      if r.2.2.2 = .allocFailure ∧ r.2.1.timedOut = true then
        some (aheName ++
          ": the broker did not respond; using process-local OPcache for this invocation")
      else none⟩ := by
  obtain ⟨p', broker, outputs, status⟩ := r
  obtain ⟨hstatus, hheld, hclient, ⟨errorIn, houtputs⟩, hmemory⟩ := h
  dsimp only at hstatus hheld hclient houtputs hmemory ⊢
  subst hstatus hclient houtputs
  obtain ⟨hfds, hclosed⟩ := hheld.custody.settled
  refine ⟨rfl, rfl, rfl, rfl, hclosed, hheld.sound, hfds, ?_, rfl, ?_, ?_⟩
  · intro hunmapped
    rw [hunmapped] at hmemory
    exact hmemory.liveMappings hquiet
  · refine htimedOut.trans ⟨fun h => ⟨socketPath, cacheKey, hkey, h⟩, ?_⟩
    rintro ⟨socketPath', cacheKey', hok, h⟩
    cases hkey.symm.trans hok
    exact h
  · cases timedOut <;> rfl

/-- Every failure of `ahe_create_segments` is atomic. The process is as the call finds it, with
what descriptors it has and a log that begins with the call. -/
theorem failed_acquisition_atomic (e : Environment) (fds : DescriptorTable Object) (c : ConnId)
    (requestedSize : UInt64) (a : AcquireAnswers) (hreply : Deliverable a.reply)
    (hfailed : (createSegments e ⟨fds, []⟩ .initializer c requestedSize a).status ≠ .allocSuccess ∧
      (createSegments e ⟨fds, []⟩ .initializer c requestedSize a).status ≠ .successfullyReattached) :
    LeavesNothing e ⟨fds, []⟩ c requestedSize a
      (createSegments e ⟨fds, []⟩ .initializer c requestedSize a) := by
  have hstart := Holds.start fds
  cases hkey : e.createCacheKey requestedSize with
  | error errorIn => exact leavesNothing_of_error hstart rfl hkey
  | ok key =>
      obtain ⟨socketPath, cacheKey⟩ := key
      rcases brokerClientAcquire_ends hstart c e.effectiveUid socketPath cacheKey requestedSize
        hreply with ⟨timedOut, htimedOut, hfailure⟩ | hheld
      · have hnothing := leavesNothing_of_failure hkey rfl htimedOut hfailure
        unfold createSegments
        rw [hkey]
        exact hnothing
      · obtain ⟨_, _, _, _, _, _, _, _, creator, -, -, -, -, heq⟩ := hheld.ends
        have hstatus : (createSegments e ⟨fds, []⟩ .initializer c requestedSize a).status =
            if creator = true then .allocSuccess else .successfullyReattached := by
          unfold createSegments
          rw [hkey]
          exact congrArg (fun r => r.2.2) heq
        rw [hstatus] at hfailed
        cases creator with
        | true => exact absurd rfl hfailed.1
        | false => exact absurd rfl hfailed.2

end Failure

def cliEnvironment : Environment where
  providerEnabled := true
  brokerSocket := some ⟨[99, 108, 105], by decide⟩
  cacheNamespace := none
  forceRestartTimeout := 0
  configurationDigest := some ⟨[101, 102], by decide⟩
  effectiveUid := 1000
  sapiName := none
  systemId := [112]
  executeEx := 4096
  snprintfFails := false

/-- The broker sends two descriptors and an address, but the kernel maps elsewhere. -/
def misplaced : AcquireAnswers where
  connect := ⟨some 3, true, true, true, some ⟨true, 1, 1000⟩, some ⟨true, 1000, 0o600⟩⟩
  sent := .ok ()
  reply := .ok
    { octets := MessageV1.encode { brokerMessageInit .attach with
        mappingSize := 4096, mappingBase := 65536, sharedGlobalsOffset := 16 }
      control := [.rights [(4, .memfd 0), (5, .memfd 1)] false]
      controlTruncated := false }
  map := ⟨some 131072, true, 0⟩

theorem failed_acquisition_atomic_misplaced :
    (createSegments cliEnvironment ⟨.empty, []⟩ .initializer 0 4096 misplaced).process.log =
      [.opened (.conn 0), .opened (.memfd 0), .opened (.memfd 1),
        .mapped 131072 4096 (.memfd 0), .unmapped 131072 4096,
        .closed (.memfd 0), .closed (.memfd 1), .closed (.conn 0)] ∧
    LeavesNothing cliEnvironment ⟨.empty, []⟩ 0 4096 misplaced
      (createSegments cliEnvironment ⟨.empty, []⟩ .initializer 0 4096 misplaced) := by
  have hreply : Deliverable misplaced.reply := by
    intro r hr
    cases hr
    exact ⟨by decide, by decide⟩
  exact ⟨by decide +kernel, failed_acquisition_atomic _ _ _ _ _ hreply (by decide +kernel)⟩

end Hyperglyph
