import Hyperglyph.Client.Lifetime
import Hyperglyph.Provider.Segments

/-! Who frees the block `ahe_broker_allocate_segment` makes. It passes from the client to OPcache,
or stays with the client, by the status of the acquisition and the verdict of OPcache's wrapper. -/
namespace Hyperglyph

open DescriptorTable Process

def ShmStatus.code : ShmStatus → Int
  | .allocFailure => Hyperglyph.allocFailure
  | .allocSuccess => Hyperglyph.allocSuccess
  | .failedReattached => Hyperglyph.failedReattached
  | .successfullyReattached => Hyperglyph.successfullyReattached

/-- What the wrapper sees of an acquisition. -/
def providerResult (outputs : Outputs) (status : ShmStatus) : ProviderResult where
  status := status.code
  sharedSegments := outputs.sharedSegments.map fun block => ⟨[some block.segment], 1, rfl⟩
  reattachedSharedGlobals := outputs.reattachedSharedGlobals
  errorIn := outputs.errorIn

/-- Calls while OPcache serves requests. -/
def ClientCall.isService : ClientCall → Bool
  | .lock _ | .unlock _ | .publish .. | .abort _ => true
  | _ => false

/-- What OPcache does with the block and the client, and what it is answered. `copy` is where its
copy of the segment lies at the end, `unmapped` the answer to the `munmap` of `detach`. -/
structure BlockUse where
  sizeofSharedGlobals : UInt64
  calls : List ClientCall
  service : ∀ call ∈ calls, call.isService = true
  copy : UInt64
  unmapped : Bool
  farewell : ExchangeAnswers
  finalUnmapped : Bool

namespace BlockUse

/-- The status after the wrapper looked at the acquisition. -/
def verdict (u : BlockUse) (r : Process × BrokerClient × Outputs × ShmStatus) : Int :=
  (providerCreateSegments u.sizeofSharedGlobals (providerResult r.2.2.1 r.2.2.2) r.2.1.lockFd).1

/-- `zend_shared_alloc_try` after a failure: the segment is detached, if it is mapped, and the block
is freed. -/
def cleanUp (u : BlockUse) (s : ClientLife) : Option SharedSegments → ClientLife
  | none => s
  | some block =>
      let s :=
        if block.segment.p ≠ 0 ∧ block.segment.p ≠ mapFailed then
          s.step (.detach (block.allocation + sizeofPointer) u.unmapped)
        else s
      { s with process := s.process.free block.allocation }

/-- The segment is used until OPcache shuts down, which detaches a copy of it. -/
def serve (u : BlockUse) (s : ClientLife) : ClientLife :=
  (u.calls.foldl ClientLife.step s).step (.detach u.copy u.unmapped)

/-- `zend_shared_alloc_startup` copied the segment and frees the block. -/
def handOver (s : ClientLife) : Option SharedSegments → ClientLife
  | none => s
  | some block => { s with process := s.process.free block.allocation }

/-- From the acquisition to the provider's shutdown. -/
def beforeShutdown (u : BlockUse) (r : Process × BrokerClient × Outputs × ShmStatus) : ClientLife :=
  let s : ClientLife := ⟨r.1, r.2.1, r.2.2.1.sharedSegments.map SharedSegments.segment, false⟩
  if u.verdict r = allocFailure then u.cleanUp s r.2.2.1.sharedSegments
  else if u.verdict r = successfullyReattached then u.serve s
  else u.serve (handOver s r.2.2.1.sharedSegments)

def afterShutdown (u : BlockUse) (r : Process × BrokerClient × Outputs × ShmStatus) : ClientLife :=
  (u.beforeShutdown r).step (.shutdown u.farewell u.finalUnmapped)

end BlockUse

def ProcessEvent.freed? : ProcessEvent → Option UInt64
  | .freed address => some address
  | _ => none

/-- Every call of `free`, by OPcache or by the client. -/
def Process.freed (p : Process) : List UInt64 := p.memory.filterMap ProcessEvent.freed?

/-- The client will free the block when it is shut down. -/
def BrokerClient.willFree (client : BrokerClient) : Prop :=
  client.reattached = true ∧ client.segmentAllocation ≠ 0

/-- The block is freed at most once, and not left to the client once it was freed. -/
def FreedOnce (u : BlockUse) (r : Process × BrokerClient × Outputs × ShmStatus) : Prop :=
  (u.afterShutdown r).process.freed.length ≤ 1 ∧
    ((u.beforeShutdown r).process.freed ≠ [] → ¬ (u.beforeShutdown r).client.willFree)

/-- The detachment of OPcache's cleanup is made and removes the mapping. -/
def Detaches (block : SharedSegments) (unmapped : Bool) : Prop :=
  block.segment.p ≠ mapFailed ∧ block.allocation + sizeofPointer ≠ 0 ∧ block.segment.size ≠ 0 ∧
    unmapped = true

section Service

variable {s s' : ClientLife}

@[simp] theorem freed_emit (p : Process) (events : List ProcessEvent) :
    (p.emit events).freed =
      p.freed ++ (events.filter ProcessEvent.isMemory).filterMap ProcessEvent.freed? := by
  unfold Process.freed
  rw [memory_emit, List.filterMap_append]

theorem freed_of_memory {p p' : Process} (h : p'.memory = p.memory) : p'.freed = p.freed := by
  unfold Process.freed
  rw [h]

/-- What serving leaves alone. A client that did not create has nothing to publish. -/
structure Serviced (s s' : ClientLife) : Prop where
  freed : s'.process.freed = s.process.freed
  reattached : s'.client.reattached = s.client.reattached
  creator : s'.client.creator = s.client.creator
  segment : s'.segment = s.segment
  mapping : s'.client.mapping = s.client.mapping
  block : s.client.creator = false → s'.client.segmentAllocation = s.client.segmentAllocation

theorem Serviced.refl (s : ClientLife) : Serviced s s := ⟨rfl, rfl, rfl, rfl, rfl, fun _ => rfl⟩

theorem Serviced.trans {s'' : ClientLife} (h : Serviced s s') (h' : Serviced s' s'') : Serviced s s'' := by
  refine ⟨h'.freed.trans h.freed, h'.reattached.trans h.reattached, h'.creator.trans h.creator,
    h'.segment.trans h.segment, h'.mapping.trans h.mapping, ?_⟩
  intro hcreator
  exact (h'.block (h.creator.trans hcreator)).trans (h.block hcreator)

theorem serviced_step {call : ClientCall} (hcall : call.isService = true) : Serviced s (s.step call) := by
  cases call with
  | lock answer =>
      exact ⟨freed_of_memory (memory_setLock s.process s.client _ _ answer), rfl, rfl, rfl, rfl,
        fun _ => rfl⟩
  | unlock answer =>
      exact ⟨freed_of_memory (memory_setLock s.process s.client _ _ answer), rfl, rfl, rfl, rfl,
        fun _ => rfl⟩
  | abort a =>
      exact ⟨freed_of_memory (memory_abort s.process s.client a), rfl, rfl, rfl, rfl, fun _ => rfl⟩
  | publish sharedGlobals a =>
      have hpublished := publish_spec s.process s.client sharedGlobals a
      unfold ClientLife.step
      dsimp only
      generalize brokerClientPublish s.process s.client sharedGlobals a = published at hpublished ⊢
      obtain ⟨p', client', success⟩ := published
      obtain ⟨hmemory, hclient⟩ := hpublished
      rcases hclient with hsame | ⟨hcreator, hready⟩
      · cases hsame
        exact ⟨freed_of_memory hmemory, rfl, rfl, rfl, rfl, fun _ => rfl⟩
      · cases hready
        refine ⟨freed_of_memory hmemory, rfl, rfl, rfl, rfl, ?_⟩
        intro hnot
        rw [hcreator] at hnot
        cases hnot
  | detach address unmapped => cases hcall
  | shutdown a unmapped => cases hcall
  | elsewhere fds => cases hcall

theorem serviced_foldl {calls : List ClientCall} (hcalls : ∀ call ∈ calls, call.isService = true) :
    Serviced s (calls.foldl ClientLife.step s) := by
  induction calls generalizing s with
  | nil => exact .refl s
  | cons call calls ih =>
      have hfirst : Serviced s (s.step call) := serviced_step (hcalls call List.mem_cons_self)
      exact hfirst.trans (ih fun call' hmem => hcalls call' (List.mem_cons_of_mem _ hmem))

end Service

section Ends

variable {s : ClientLife} {u : BlockUse} {r : Process × BrokerClient × Outputs × ShmStatus}

/-- The detachment that makes the client forget the block. -/
def ClearsBlock (client : BrokerClient) (address : UInt64) (segment : ShmSegment)
    (unmapped : Bool) : Prop :=
  (address ≠ 0 ∧ segment.p ≠ 0 ∧ segment.size ≠ 0 ∧ unmapped = true) ∧
    client.segmentAllocation ≠ 0 ∧ address = client.segmentAllocation + sizeofPointer

/-- `detach` frees nothing, and no other detachment clears the pointer to the block. -/
theorem detach_spec (p : Process) (client : BrokerClient) (address : UInt64) (segment : ShmSegment)
    (unmapped : Bool) :
    (brokerClientDetach p client address segment unmapped).1.freed = p.freed ∧
      (brokerClientDetach p client address segment unmapped).2.1.reattached = client.reattached ∧
      (ClearsBlock client address segment unmapped →
        (brokerClientDetach p client address segment unmapped).2.1.segmentAllocation = 0) ∧
      (¬ ClearsBlock client address segment unmapped →
        (brokerClientDetach p client address segment unmapped).2.1.segmentAllocation =
          client.segmentAllocation) := by
  unfold brokerClientDetach
  by_cases hrefused : address = 0 ∨ segment.p = 0 ∨ segment.size = 0
  · rw [if_pos hrefused]
    refine ⟨rfl, rfl, ?_, fun _ => rfl⟩
    rintro ⟨⟨haddress, hp, hsize, -⟩, -⟩
    exact absurd hrefused (by simp [haddress, hp, hsize])
  · rw [if_neg hrefused]
    simp only [not_or] at hrefused
    cases unmapped with
    | false =>
        refine ⟨rfl, rfl, ?_, fun _ => rfl⟩
        rintro ⟨⟨-, -, -, hfalse⟩, -⟩
        cases hfalse
    | true =>
        have hremoved : p.munmap segment.p segment.size true =
            (p.emit [.unmapped segment.p segment.size], true) := rfl
        have hfreed : (p.emit [.unmapped segment.p segment.size]).freed = p.freed := by
          rw [freed_emit]
          exact List.append_nil _
        rw [hremoved]
        dsimp only
        by_cases howned : address =
            if client.segmentAllocation ≠ 0 then client.segmentAllocation + sizeofPointer else 0
        · rw [if_pos howned]
          refine ⟨hfreed, ?_, fun _ => rfl, ?_⟩
          · split <;> rfl
          · intro hnot
            have hne : client.segmentAllocation ≠ 0 := by
              intro hzero
              rw [hzero] at howned
              exact hrefused.1 howned
            rw [if_pos hne] at howned
            exact absurd ⟨⟨hrefused.1, hrefused.2.1, hrefused.2.2, rfl⟩, hne, howned⟩ hnot
        · rw [if_neg howned]
          refine ⟨hfreed, ?_, ?_, ?_⟩
          · split <;> rfl
          · rintro ⟨-, hne, hclears⟩
            rw [if_pos hne] at howned
            exact absurd hclears howned
          · intro _
            split <;> rfl

theorem freed_shutdown (s : ClientLife) (a : ExchangeAnswers) (unmapped : Bool) :
    (s.step (.shutdown a unmapped)).process.freed = s.process.freed ++
      if s.client.reattached = true ∧ s.client.segmentAllocation ≠ 0 then
        [s.client.segmentAllocation] else [] := by
  have hmemory := ClientLife.memory_shutdown s.process s.client a unmapped
  have hgiven : (ClientLife.givingUp s.client unmapped).filterMap ProcessEvent.freed? =
      if s.client.reattached = true ∧ s.client.segmentAllocation ≠ 0 then
        [s.client.segmentAllocation] else [] := by
    unfold ClientLife.givingUp
    rw [List.filterMap_append]
    split <;> split <;> rfl
  unfold ClientLife.step Process.freed
  dsimp only
  rw [hmemory, List.filterMap_append, hgiven]

theorem step_detach_spec (s : ClientLife) (address : UInt64) (unmapped : Bool) :
    (s.step (.detach address unmapped)).process.freed = s.process.freed ∧
      (s.step (.detach address unmapped)).client.reattached = s.client.reattached := by
  unfold ClientLife.step
  cases s.segment with
  | none => exact ⟨rfl, rfl⟩
  | some segment =>
      obtain ⟨hfreed, hreattached, -⟩ := detach_spec s.process s.client address segment unmapped
      exact ⟨hfreed, hreattached⟩

namespace BlockUse

theorem serve_spec (u : BlockUse) (s : ClientLife) :
    (u.serve s).process.freed = s.process.freed ∧
      (u.serve s).client.reattached = s.client.reattached := by
  have hserviced : Serviced s (u.calls.foldl ClientLife.step s) := serviced_foldl u.service
  obtain ⟨hfreed, hreattached⟩ := step_detach_spec (u.calls.foldl ClientLife.step s) u.copy u.unmapped
  exact ⟨hfreed.trans hserviced.freed, hreattached.trans hserviced.reattached⟩

theorem freed_free (p : Process) (address : UInt64) : (p.free address).freed = p.freed ++ [address] :=
  freed_emit p [.freed address]

theorem cleanUp_spec (u : BlockUse) (s : ClientLife) (block : SharedSegments) :
    (u.cleanUp s (some block)).process.freed = s.process.freed ++ [block.allocation] ∧
      (u.cleanUp s (some block)).client.reattached = s.client.reattached := by
  unfold cleanUp
  dsimp only
  rw [freed_free]
  split
  · obtain ⟨hfreed, hreattached⟩ := step_detach_spec s (block.allocation + sizeofPointer) u.unmapped
    exact ⟨by rw [hfreed], hreattached⟩
  · exact ⟨rfl, rfl⟩

/-- The cleanup of the block the client made, after which the client has forgotten it or not. -/
theorem cleanUp_forgets (u : BlockUse) {s : ClientLife} {block : SharedSegments}
    (hsegment : s.segment = some block.segment) (hblock : s.client.segmentAllocation = block.allocation)
    (hallocation : block.allocation ≠ 0) (hp : block.segment.p ≠ 0) :
    (u.cleanUp s (some block)).client.segmentAllocation = 0 ↔ Detaches block u.unmapped := by
  unfold cleanUp Detaches
  dsimp only
  by_cases hfailed : block.segment.p = mapFailed
  · rw [if_neg (by simp [hfailed])]
    refine iff_of_false ?_ fun h => h.1 hfailed
    rw [hblock]
    exact hallocation
  · rw [if_pos ⟨hp, hfailed⟩]
    unfold ClientLife.step
    rw [hsegment]
    dsimp only
    obtain ⟨-, -, hclears, hkeeps⟩ := detach_spec s.process s.client (block.allocation + sizeofPointer)
      block.segment u.unmapped
    by_cases hdetaches : block.allocation + sizeofPointer ≠ 0 ∧ block.segment.size ≠ 0 ∧
        u.unmapped = true
    · obtain ⟨haddress, hsize, hunmapped⟩ := hdetaches
      refine iff_of_true (hclears ⟨⟨haddress, hp, hsize, hunmapped⟩, ?_, ?_⟩)
        ⟨hfailed, haddress, hsize, hunmapped⟩
      · rw [hblock]
        exact hallocation
      · rw [hblock]
    · refine iff_of_false ?_ fun h => hdetaches h.2
      rw [hkeeps, hblock]
      · exact hallocation
      · rintro ⟨⟨haddress, -, hsize, hunmapped⟩, -⟩
        exact hdetaches ⟨haddress, hsize, hunmapped⟩

end BlockUse

/-- What `free` was called for before the shutdown decides. -/
theorem freedOnce_iff (hone : (u.beforeShutdown r).process.freed.length ≤ 1) :
    FreedOnce u r ↔
      ((u.beforeShutdown r).process.freed = [] ∨ ¬ (u.beforeShutdown r).client.willFree) := by
  unfold FreedOnce BlockUse.afterShutdown
  rw [freed_shutdown]
  by_cases hwill : (u.beforeShutdown r).client.willFree
  · have hfrees : (u.beforeShutdown r).client.reattached = true ∧
        (u.beforeShutdown r).client.segmentAllocation ≠ 0 := hwill
    rw [if_pos hfrees, List.length_append, List.length_singleton]
    constructor
    · rintro ⟨hlength, -⟩
      exact .inl (List.length_eq_zero_iff.mp (by omega))
    · rintro (hnone | hnot)
      · rw [hnone]
        exact ⟨Nat.le_refl 1, fun hne => absurd rfl hne⟩
      · exact absurd hwill hnot
  · have hkeeps : ¬ ((u.beforeShutdown r).client.reattached = true ∧
        (u.beforeShutdown r).client.segmentAllocation ≠ 0) := hwill
    rw [if_neg hkeeps, List.append_nil]
    exact iff_of_true ⟨hone, fun _ => hwill⟩ (.inr hwill)

/-- The acquisition attached to a cache, the wrapper rejects it, and the cleanup does not get
`detach` to forget the block: OPcache frees it, and so will the client. -/
def LeftToBoth (u : BlockUse) (r : Process × BrokerClient × Outputs × ShmStatus) : Prop :=
  r.2.2.2 = .successfullyReattached ∧ u.verdict r = allocFailure ∧
    ∀ block, r.2.2.1.sharedSegments = some block → ¬ Detaches block u.unmapped

theorem verdict_cases (u : BlockUse) (r : Process × BrokerClient × Outputs × ShmStatus) :
    u.verdict r = r.2.2.2.code ∨ u.verdict r = allocFailure :=
  createSegments_status

/-- The client in its process as OPcache finds it. -/
def begun (r : Process × BrokerClient × Outputs × ShmStatus) : ClientLife :=
  ⟨r.1, r.2.1, r.2.2.1.sharedSegments.map SharedSegments.segment, false⟩

theorem beforeShutdown_of_rejected (h : u.verdict r = allocFailure) :
    u.beforeShutdown r = u.cleanUp (begun r) r.2.2.1.sharedSegments :=
  if_pos h

theorem beforeShutdown_of_reattached (h : u.verdict r = successfullyReattached) :
    u.beforeShutdown r = u.serve (begun r) := by
  unfold BlockUse.beforeShutdown
  rw [h]
  rfl

theorem beforeShutdown_of_success (h : u.verdict r = allocSuccess) :
    u.beforeShutdown r = u.serve (BlockUse.handOver (begun r) r.2.2.1.sharedSegments) := by
  unfold BlockUse.beforeShutdown
  rw [h]
  rfl

theorem GaveUp.freed {p₀ p : Process} {unmapped : Bool} (h : GaveUp p₀ p unmapped)
    (hnone : p₀.memory = []) : p.freed = [] := by
  unfold Process.freed
  rcases h with hkept | ⟨address, size, o, hgone⟩
  · rw [hkept, hnone]
    rfl
  · rw [hgone, hnone]
    cases unmapped <;> rfl

/-- Without a block nothing is freed. -/
theorem freedOnce_of_failed (hstatus : r.2.2.2 = .allocFailure) (hfreed : r.1.freed = [])
    (hblock : r.2.2.1.sharedSegments = none) : FreedOnce u r ∧ ¬ LeftToBoth u r := by
  have hverdict : u.verdict r = allocFailure := by
    rcases verdict_cases u r with hcode | hfailure
    · rw [hcode, hstatus]
      rfl
    · exact hfailure
  have hbefore : (u.beforeShutdown r).process.freed = [] := by
    rw [beforeShutdown_of_rejected hverdict, hblock]
    exact hfreed
  constructor
  · refine (freedOnce_iff ?_).mpr (.inl hbefore)
    rw [hbefore]
    exact Nat.zero_le 1
  · rintro ⟨hreattached, -⟩
    rw [hstatus] at hreattached
    cases hreattached

section Held

variable {block : SharedSegments} (hfreed : r.1.freed = [])
  (hblock : r.2.2.1.sharedSegments = some block)

include hfreed hblock

/-- The client created the cache: OPcache frees the block, whatever the wrapper says. -/
theorem freedOnce_of_created (hstatus : r.2.2.2 = .allocSuccess)
    (hreattached : r.2.1.reattached = false) : FreedOnce u r ∧ ¬ LeftToBoth u r := by
  have hbefore : (u.beforeShutdown r).process.freed = [block.allocation] ∧
      (u.beforeShutdown r).client.reattached = false := by
    rcases verdict_cases u r with hcode | hfailure
    · rw [hstatus] at hcode
      rw [beforeShutdown_of_success hcode, hblock]
      obtain ⟨hserved, hsame⟩ := u.serve_spec (BlockUse.handOver (begun r) (some block))
      refine ⟨?_, hsame.trans hreattached⟩
      rw [hserved]
      exact (BlockUse.freed_free r.1 block.allocation).trans (by rw [hfreed]; rfl)
    · rw [beforeShutdown_of_rejected hfailure, hblock]
      obtain ⟨hcleaned, hsame⟩ := u.cleanUp_spec (begun r) block
      refine ⟨?_, hsame.trans hreattached⟩
      rw [hcleaned]
      exact congrArg (· ++ [block.allocation]) hfreed
  constructor
  · refine (freedOnce_iff ?_).mpr (.inr ?_)
    · rw [hbefore.1]
      exact Nat.le_refl 1
    · rintro ⟨hwill, -⟩
      rw [hbefore.2] at hwill
      cases hwill
  · rintro ⟨hattached, -⟩
    rw [hstatus] at hattached
    cases hattached

/-- The client attached: the block is its own, unless the wrapper rejects the segment. -/
theorem freedOnce_of_attached (hstatus : r.2.2.2 = .successfullyReattached)
    (hreattached : r.2.1.reattached = true) (howned : r.2.1.segmentAllocation = block.allocation)
    (hallocation : block.allocation ≠ 0) (hp : block.segment.p ≠ 0) :
    FreedOnce u r ↔ ¬ LeftToBoth u r := by
  rcases verdict_cases u r with hcode | hfailure
  · rw [hstatus] at hcode
    have hbefore : (u.beforeShutdown r).process.freed = [] := by
      rw [beforeShutdown_of_reattached hcode, (u.serve_spec (begun r)).1]
      exact hfreed
    refine iff_of_true ((freedOnce_iff ?_).mpr (.inl hbefore)) ?_
    · rw [hbefore]
      exact Nat.zero_le 1
    · rintro ⟨-, hrejected, -⟩
      rw [hcode] at hrejected
      cases hrejected
  · have hsegment : (begun r).segment = some block.segment := by
      unfold begun
      rw [hblock]
      rfl
    obtain ⟨hcleaned, hsame⟩ := u.cleanUp_spec (begun r) block
    have hforgets := u.cleanUp_forgets hsegment howned hallocation hp
    have hbefore : u.beforeShutdown r = u.cleanUp (begun r) (some block) := by
      rw [beforeShutdown_of_rejected hfailure, hblock]
    have hlist : (u.beforeShutdown r).process.freed = [block.allocation] := by
      rw [hbefore, hcleaned]
      exact congrArg (· ++ [block.allocation]) hfreed
    have hwill : (u.beforeShutdown r).client.willFree ↔ ¬ Detaches block u.unmapped := by
      rw [hbefore, ← hforgets]
      exact and_iff_right (hsame.trans hreattached)
    have hboth : LeftToBoth u r ↔ ¬ Detaches block u.unmapped := by
      unfold LeftToBoth
      rw [hblock]
      constructor
      · exact fun h => h.2.2 block rfl
      · rintro hnot
        refine ⟨hstatus, hfailure, ?_⟩
        intro block' hsome
        cases hsome
        exact hnot
    rw [freedOnce_iff (by rw [hlist]; exact Nat.le_refl 1), hlist, hwill, hboth]
    simp

end Held

/-- The block is freed once exactly when it is not left to both. -/
theorem freed_once_iff (u : BlockUse) (fds : DescriptorTable Object) (c : ConnId)
    (effectiveUid : Nat) (socketPath cacheKey : List UInt8) (size : UInt64) (a : AcquireAnswers)
    (hreply : Deliverable a.reply) :
    FreedOnce u (brokerClientAcquire ⟨fds, []⟩ .initializer c effectiveUid socketPath cacheKey size
        .cleared a) ↔
      ¬ LeftToBoth u (brokerClientAcquire ⟨fds, []⟩ .initializer c effectiveUid socketPath cacheKey
        size .cleared a) := by
  rcases brokerClientAcquire_ends (Holds.start fds) c effectiveUid socketPath cacheKey size hreply
    with ⟨timedOut, -, hfailed⟩ | hheld
  · obtain ⟨errorIn, houtputs⟩ := hfailed.outputs
    have hblock := congrArg Outputs.sharedSegments houtputs
    obtain ⟨hfreed, hnot⟩ := freedOnce_of_failed hfailed.status (hfailed.memory.freed rfl) hblock
    exact iff_of_true hfreed hnot
  · obtain ⟨cacheFd, lockFd, socketFd, cache, lock, mapping, allocation, globals, creator, -,
      hmemory, hmapping, hallocation, heq⟩ := hheld.ends
    generalize brokerClientAcquire ⟨fds, []⟩ .initializer c effectiveUid socketPath cacheKey size
      .cleared a = r at hmemory heq ⊢
    have hfreed : r.1.freed = [] := by
      unfold Process.freed
      rw [hmemory]
      rfl
    have hblock := congrArg (fun r => r.2.1.sharedSegments) heq
    have hstatus := congrArg (fun r => r.2.2) heq
    have hreattached := congrArg (fun r => r.1.reattached) heq
    have howned := congrArg (fun r => r.1.segmentAllocation) heq
    cases creator with
    | true =>
        obtain ⟨honce, hnot⟩ := freedOnce_of_created (u := u) hfreed hblock hstatus hreattached
        exact iff_of_true honce hnot
    | false => exact freedOnce_of_attached hfreed hblock hstatus hreattached howned hallocation hmapping

end Ends

/-- The published globals begin at the last octet of the mapping. -/
def overhanging : AcquireAnswers :=
  { ClientLife.attaching with
    reply := .ok
      { octets := MessageV1.encode { brokerMessageInit .attach with
          mappingSize := 4096, mappingBase := 65536, sharedGlobalsOffset := 4095 }
        control := [.rights [(4, .memfd 0), (5, .memfd 1)] false]
        controlTruncated := false } }

def overhangingResult : Process × BrokerClient × Outputs × ShmStatus :=
  brokerClientAcquire ⟨.empty, []⟩ .initializer 0 1000 [115] [107] 4096 .cleared overhanging

/-- OPcache's globals are larger than one octet, and the broker does not answer the goodbye. -/
def rejecting (unmapped : Bool) : BlockUse where
  sizeofSharedGlobals := 64
  calls := []
  service := by simp
  copy := 8
  unmapped := unmapped
  farewell := ⟨.ok (), .error .again⟩
  finalUnmapped := true

theorem deliverable_overhanging : Deliverable overhanging.reply := by
  intro r hr
  cases hr
  exact ⟨by decide, by decide⟩

theorem freed_once_iff_overhanging :
    ((rejecting true).afterShutdown overhangingResult).process.freed = [131072] ∧
      (FreedOnce (rejecting true) overhangingResult ↔
        ¬ LeftToBoth (rejecting true) overhangingResult) :=
  ⟨by decide +kernel, freed_once_iff _ _ _ _ _ _ _ _ deliverable_overhanging⟩

/-- When `munmap` fails in the cleanup, both free the block. -/
theorem freed_twice : Deliverable overhanging.reply ∧
    ((rejecting false).afterShutdown overhangingResult).process.freed = [131072, 131072] ∧
      ¬ FreedOnce (rejecting false) overhangingResult := by
  have hfreed : ((rejecting false).afterShutdown overhangingResult).process.freed =
      [131072, 131072] := by decide +kernel
  refine ⟨deliverable_overhanging, hfreed, ?_⟩
  rintro ⟨honce, -⟩
  rw [hfreed] at honce
  exact absurd honce (by decide)

end Hyperglyph
