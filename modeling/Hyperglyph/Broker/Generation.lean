import Hyperglyph.Broker.Kernel

/-! The broker's single cache generation: `ahe_generation_*` of `ahe_broker.c`. -/
namespace Hyperglyph

open Octets

/-- `enum ahe_generation_state`. -/
inductive GenerationState
  | empty | initializing | ready
  deriving DecidableEq, Repr

/-- `ahe_generation`. -/
structure Generation where
  state : GenerationState
  cacheFd : Fd
  lockFd : Fd
  creatorFd : Fd
  mappingSize : UInt64
  mappingBase : UInt64
  sharedGlobalsOffset : UInt64
  cacheKey : KeyBuffer
  deriving DecidableEq

def generationInit : Generation where
  state := .empty
  cacheFd := -1
  lockFd := -1
  creatorFd := -1
  mappingSize := 0
  mappingBase := 0
  sharedGlobalsOffset := 0
  cacheKey := .zero

def generationReset (k : Kernel) (g : Generation) : Kernel × Generation :=
  let k := if g.cacheFd ≥ 0 then k.close g.cacheFd else k
  let k := if g.lockFd ≥ 0 then k.close g.lockFd else k
  (k, generationInit)

/-- The kernel's answers inside `ahe_generation_create`. -/
structure CreateAnswers where
  cacheMemfdExec : Option Nat
  execRejected : Bool
  cacheMemfd : Option Nat
  cacheTruncated : Bool
  lockMemfd : Option Nat
  lockTruncated : Bool
  deriving DecidableEq

def cacheMemfdCreate (k : Kernel) (a : CreateAnswers) : Kernel × Fd :=
  let (k, fd) := k.memfdCreate a.cacheMemfdExec
  -- Linux before 6.3 rejects the then-unknown MFD_EXEC flag with EINVAL.
  if fd < 0 ∧ a.execRejected then k.memfdCreate a.cacheMemfd else (k, fd)

/-- The argument check at the head of `ahe_generation_create`, which answers `EINVAL`. -/
def requestInvalid (request : MessageV1) : Bool :=
  request.mappingSize == 0 || decide (request.mappingSize.toNat > sizeMax)
    || decide (request.mappingSize.toNat > int64Max)
    || !terminated request.cacheKey.bytes
    || request.cacheKey.bytes.headD 0 == 0

/-- The kernel makes both memfds and gives them their sizes. -/
def memfdsMade (k : Kernel) (a : CreateAnswers) : Bool :=
  let (k, cacheFd) := cacheMemfdCreate k a
  decide (0 ≤ cacheFd) && a.cacheTruncated && decide (0 ≤ (k.memfdCreate a.lockMemfd).2)
    && a.lockTruncated

def generationCreate (k : Kernel) (g : Generation) (clientFd : Fd) (request : MessageV1)
    (a : CreateAnswers) : Kernel × Generation × Bool :=
  if requestInvalid request then (k, g, false)
  else
    let (k, cacheFd) := cacheMemfdCreate k a
    let g := { g with cacheFd }
    if cacheFd < 0 ∨ !a.cacheTruncated then
      let (k, g) := generationReset k g
      (k, g, false)
    else
      let (k, lockFd) := k.memfdCreate a.lockMemfd
      let g := { g with lockFd }
      if lockFd < 0 ∨ !a.lockTruncated then
        let (k, g) := generationReset k g
        (k, g, false)
      else
        (k, { g with
          state := .initializing
          creatorFd := clientFd
          mappingSize := request.mappingSize
          cacheKey := request.cacheKey }, true)

def generationMatches (g : Generation) (request : MessageV1) : Bool :=
  request.mappingSize == g.mappingSize && terminated request.cacheKey.bytes
    && strcmpEq request.cacheKey.bytes g.cacheKey.bytes

/-! ### What the functions do -/

/-- The generation a successful creation leaves behind. -/
def createdGeneration (cacheFd lockFd : Nat) (clientFd : Fd) (request : MessageV1) : Generation :=
  { generationInit with
    state := .initializing
    cacheFd := cacheFd
    lockFd := lockFd
    creatorFd := clientFd
    mappingSize := request.mappingSize
    cacheKey := request.cacheKey }

namespace Kernel

/-- The kernel after `made` memfds were opened and closed again. -/
def discarded (k : Kernel) (made : Nat) : Kernel where
  fds := k.fds
  nextMemfd := k.nextMemfd + made
  log := k.log ++ (List.range made).map fun i => .closed (.memfd (k.nextMemfd + i))

/-- The kernel after the cache and lock memfds were opened. -/
def withPair (k : Kernel) (cacheFd lockFd : Nat) : Kernel where
  fds := (k.fds.install cacheFd (.memfd k.nextMemfd)).install lockFd (.memfd (k.nextMemfd + 1))
  nextMemfd := k.nextMemfd + 2
  log := k.log

end Kernel

theorem generationReset_of_open {k : Kernel} {g : Generation} {p q : Object}
    (hcache : k.fds.get g.cacheFd = some p) (hlock : k.fds.get g.lockFd = some q)
    (hne : g.cacheFd ≠ g.lockFd) :
    generationReset k g =
      ({ k with
          fds := (k.fds.remove g.cacheFd).remove g.lockFd
          log := k.log ++ [.closed p, .closed q] }, generationInit) := by
  have hlock' : (k.fds.remove g.cacheFd).get g.lockFd = some q := by
    rw [DescriptorTable.get_remove_of_ne hne.symm, hlock]
  simp only [generationReset, ge_iff_le, if_pos (DescriptorTable.nonneg_of_get hcache),
    if_pos (DescriptorTable.nonneg_of_get hlock), Kernel.close_of_open hcache]
  rw [Kernel.close_of_open hlock']
  simp only [List.append_assoc, List.cons_append, List.nil_append]

theorem cacheMemfdCreate_cases (k : Kernel) (a : CreateAnswers) :
    cacheMemfdCreate k a = (k, -1) ∨
      ∃ n, k.fds.Free n ∧ cacheMemfdCreate k a =
        ({ k with fds := k.fds.install n (.memfd k.nextMemfd), nextMemfd := k.nextMemfd + 1 },
          (n : Fd)) := by
  unfold cacheMemfdCreate
  rcases k.memfdCreate_cases a.cacheMemfdExec with hfail | ⟨n, ha, hn⟩
  · rw [hfail]
    simp only [Int.reduceNeg, Int.reduceLT, true_and]
    split
    · rcases k.memfdCreate_cases a.cacheMemfd with hfail | ⟨n, ha, hn⟩
      · exact .inl hfail
      · exact .inr ⟨n, hn, by rw [ha, Kernel.memfdCreate_of_free hn]⟩
    · exact .inl rfl
  · rw [ha, Kernel.memfdCreate_of_free hn]
    have hpos : ¬ ((n : Fd) < 0 ∧ a.execRejected = true) :=
      fun h => Int.not_lt.mpr (Int.natCast_nonneg n) h.1
    simp only [if_neg hpos]
    exact .inr ⟨n, hn, rfl⟩

/-- Everything `ahe_generation_create` can do to an empty generation. -/
inductive GenerationCreate (k : Kernel) (clientFd : Fd) (request : MessageV1)
    (a : CreateAnswers) : Kernel × Generation × Bool → Prop
  | invalid : requestInvalid request = true →
      GenerationCreate k clientFd request a (k, generationInit, false)
  | failed (made : Nat) : requestInvalid request = false → memfdsMade k a = false → made ≤ 2 →
      GenerationCreate k clientFd request a (k.discarded made, generationInit, false)
  | created (cacheFd lockFd : Nat) : requestInvalid request = false → memfdsMade k a = true →
      k.fds.Free cacheFd → k.fds.Free lockFd → cacheFd ≠ lockFd →
      GenerationCreate k clientFd request a
        (k.withPair cacheFd lockFd, createdGeneration cacheFd lockFd clientFd request, true)

theorem generationCreate_spec (k : Kernel) (clientFd : Fd) (request : MessageV1)
    (a : CreateAnswers) :
    GenerationCreate k clientFd request a
      (generationCreate k generationInit clientFd request a) := by
  unfold generationCreate
  cases hvalid : requestInvalid request with
  | true => exact .invalid hvalid
  | false =>
      simp only [Bool.false_eq_true, if_false]
      rcases cacheMemfdCreate_cases k a with hfail | ⟨n, hn, hcache⟩
      · have hmade : memfdsMade k a = false := by simp [memfdsMade, hfail]
        rw [hfail]
        have hspec : GenerationCreate k clientFd request a (k.discarded 0, generationInit, false) :=
          .failed 0 hvalid hmade (Nat.zero_le 2)
        simpa [generationReset, generationInit, Kernel.discarded] using hspec
      have hn0 : ¬ (n : Fd) < 0 := Int.not_lt.mpr (Int.natCast_nonneg n)
      have hundo : (k.fds.install n (.memfd k.nextMemfd)).remove (n : Int) = k.fds :=
        DescriptorTable.remove_install hn _
      cases hsize : a.cacheTruncated with
      | false =>
          have hmade : memfdsMade k a = false := by simp [memfdsMade, hsize]
          rw [hcache]
          have hspec : GenerationCreate k clientFd request a (k.discarded 1, generationInit, false) :=
            .failed 1 hvalid hmade (by omega)
          simpa [generationReset, generationInit, Kernel.discarded, Kernel.close, hundo] using hspec
      | true =>
          rcases Kernel.memfdCreate_cases { k with
              fds := k.fds.install n (.memfd k.nextMemfd), nextMemfd := k.nextMemfd + 1 }
            a.lockMemfd with hfail | ⟨m, ha, hm⟩
          · have hmade : memfdsMade k a = false := by simp [memfdsMade, hcache, hfail]
            rw [hcache]
            simp only [hn0, Bool.not_true, Bool.false_eq_true, or_self, if_false, hfail]
            have hspec : GenerationCreate k clientFd request a
                (k.discarded 1, generationInit, false) := .failed 1 hvalid hmade (by omega)
            simpa [generationReset, generationInit, Kernel.discarded, Kernel.close, hundo] using hspec
          have hnm : n ≠ m := by
            rintro rfl
            have hopen : (k.fds.install n (.memfd k.nextMemfd)).get (n : Int) = _ :=
              DescriptorTable.get_install_self n _
            rw [hm.get] at hopen
            cases hopen
          have hmk : k.fds.Free m := by
            have hget := hm.get
            rwa [DescriptorTable.get_install_of_ne (Int.ofNat_inj.not.mpr hnm.symm)] at hget
          have hm0 : ¬ (m : Fd) < 0 := Int.not_lt.mpr (Int.natCast_nonneg m)
          cases hlock : a.lockTruncated with
          | false =>
              have hmade : memfdsMade k a = false := by simp [memfdsMade, hlock]
              have hundo₂ : (((k.fds.install n (.memfd k.nextMemfd)).install m
                  (.memfd (k.nextMemfd + 1))).remove (n : Int)).remove (m : Int) = k.fds := by
                rw [DescriptorTable.remove_comm, DescriptorTable.remove_install hm, hundo]
              have hget : (((k.fds.install n (.memfd k.nextMemfd)).install m
                  (.memfd (k.nextMemfd + 1))).get (n : Int)) = some (.memfd k.nextMemfd) :=
                DescriptorTable.get_install_of_open hm (DescriptorTable.get_install_self n _)
              have hget' : ((((k.fds.install n (.memfd k.nextMemfd)).install m
                  (.memfd (k.nextMemfd + 1))).remove (n : Int)).get (m : Int)) =
                  some (.memfd (k.nextMemfd + 1)) := by
                rw [DescriptorTable.get_remove_of_ne (Int.ofNat_inj.not.mpr hnm.symm),
                  DescriptorTable.get_install_self]
              rw [hcache]
              simp only [hn0, Bool.not_true, Bool.false_eq_true, or_self, if_false]
              rw [ha, Kernel.memfdCreate_of_free hm]
              have hspec : GenerationCreate k clientFd request a
                  (k.discarded 2, generationInit, false) := .failed 2 hvalid hmade le_rfl
              simpa [generationReset, generationInit, Kernel.discarded, Kernel.close, hget, hget',
                hundo₂, List.range_succ] using hspec
          | true =>
              have hmade : memfdsMade k a = true := by
                simp [memfdsMade, hcache, hsize, ha, Kernel.memfdCreate_of_free hm, hlock]
              rw [hcache]
              simp only [hn0, Bool.not_true, Bool.false_eq_true, or_self, if_false]
              rw [ha, Kernel.memfdCreate_of_free hm]
              simp only [hm0, or_self, if_false]
              exact .created n m hvalid hmade hn hmk hnm

end Hyperglyph
