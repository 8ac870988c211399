import Hyperglyph.Extension.Engine

/-! The contract about addresses, from the launcher that makes it to the extension that checks
it: who passes the check, and that nobody else comes near the broker. -/
namespace Hyperglyph

namespace PhpProcess

/-- `personality(persona)`; one value only asks. -/
def setPersonality (p : PhpProcess) (persona : UInt32) : PhpProcess :=
  if persona = 0xffffffff then p else { p with personality := persona }

end PhpProcess

/-- A program file. One with capabilities of its own counts as set-ID. -/
structure Program where
  setId : Bool

/-- The kernel's part: what a process may be after `fork`, and after an `execv` that works. -/
structure ProcessCalls where
  fork : PhpProcess → PhpProcess → Prop
  execv : Program → PhpProcess → PhpProcess → Prop

/-- What the launcher relies on. A set-ID program is started without the flag, so nothing is said
of one. -/
structure ProcessCalls.Inherited (k : ProcessCalls) : Prop where
  fork : ∀ {p q}, k.fork p q → q.aslrDisabled = p.aslrDisabled
  execv : ∀ {program p q}, program.setId = false → k.execv program p q →
    q.aslrDisabled = p.aslrDisabled ∧ q.expectNoAslr = p.expectNoAslr

/-- How the launcher's other calls end. `execv` gives the process it makes, or fails, and says
whether for `ENOENT`. -/
structure LauncherAnswers where
  changed : Bool
  environmentSet : Bool
  execv : PhpProcess → Except Bool PhpProcess

/-- The answers of `execv` are those of the kernel. -/
def LauncherAnswers.Executes (a : LauncherAnswers) (k : ProcessCalls) (php : Program) : Prop :=
  ∀ p q, a.execv p = .ok q → k.execv php p q

inductive Launched
  | failed (code : Nat) (text : String)
  | running (p : PhpProcess)
  deriving DecidableEq

/-- `main` of `ahe_php.c`, up to the program it becomes. -/
def aheLaunch (p : PhpProcess) (a : LauncherAnswers) : Launched :=
  match p.currentPersonality with
  | none => .failed 126 "ahe-php: cannot read process personality"
  | some current =>
      if current &&& addrNoRandomize = 0 ∧ !a.changed then
        .failed 126 "ahe-php: cannot disable ASLR"
      else
        let p :=
          if current &&& addrNoRandomize = 0 then p.setPersonality (current ||| addrNoRandomize)
          else p
        if !a.environmentSet then .failed 126 "ahe-php: cannot prepare the PHP environment"
        else
          match a.execv { p with expectNoAslr := true } with
          | .ok php => .running php
          | .error noEntry => .failed (if noEntry then 127 else 126) "ahe-php: cannot execute"

/-- The processes that come of one as long as no set-ID program is executed and no call of
`personality` takes the flag back. -/
inductive Descends (k : ProcessCalls) (p : PhpProcess) : PhpProcess → Prop
  | itself : Descends k p p
  | forked {q r : PhpProcess} : Descends k p q → k.fork q r → Descends k p r
  | executed {q r : PhpProcess} {program : Program} : Descends k p q → program.setId = false →
      k.execv program q r → Descends k p r
  | environment {q : PhpProcess} (expectNoAslr : Bool) (brokerSocket : Option Text) :
      Descends k p q → Descends k p { q with expectNoAslr, brokerSocket }
  | personality {q : PhpProcess} {persona : UInt32} : Descends k p q →
      persona &&& addrNoRandomize ≠ 0 → Descends k p (q.setPersonality persona)

section Personality

theorem and_addrNoRandomize (c : UInt32) : (c ||| addrNoRandomize) &&& addrNoRandomize =
    addrNoRandomize := by
  apply UInt32.eq_of_toBitVec_eq
  ext i hi
  simp only [UInt32.toBitVec_and, UInt32.toBitVec_or, BitVec.getElem_and, BitVec.getElem_or]
  cases c.toBitVec[i] <;> simp

/-- The one personality that turns the launcher's request into a question. -/
theorem or_addrNoRandomize_eq_max {c : UInt32} (h : c &&& addrNoRandomize = 0) :
    c ||| addrNoRandomize = 0xffffffff ↔ c = 0xfffbffff := by
  constructor
  · intro hmax
    have hand : c.toBitVec &&& addrNoRandomize.toBitVec = 0#32 := congrArg UInt32.toBitVec h
    have hor : c.toBitVec ||| addrNoRandomize.toBitVec = BitVec.allOnes 32 :=
      congrArg UInt32.toBitVec hmax
    have hcompl : c.toBitVec = ~~~ addrNoRandomize.toBitVec := by
      ext i hi
      have hand' := congrArg (fun v => v[i]) hand
      have hor' := congrArg (fun v => v[i]) hor
      simp only [BitVec.getElem_and, BitVec.getElem_or, BitVec.getElem_zero,
        BitVec.getElem_allOnes] at hand' hor'
      rw [BitVec.getElem_not]
      cases hk : addrNoRandomize.toBitVec[i] with
      | false => simpa [hk] using hor'
      | true => simpa [hk] using hand'
    exact UInt32.eq_of_toBitVec_eq hcompl
  · rintro rfl
    decide

end Personality

section Contract

variable {p q r : PhpProcess} {a : LauncherAnswers} {k : ProcessCalls} {php : Program}
  {persona : UInt32}

theorem PhpProcess.currentPersonality_eq_some {c : UInt32} (h : p.currentPersonality = some c) :
    p.personalityReadable = true ∧ p.personality ≠ 0xffffffff ∧ p.personality = c := by
  unfold PhpProcess.currentPersonality at h
  split at h
  · next hread => exact ⟨hread.1, hread.2, Option.some_inj.mp h⟩
  · cases h

/-- Whoever passes the check has no broker or fixed addresses. -/
theorem PhpProcess.verifyAslrContract_iff (p : PhpProcess) : p.verifyAslrContract = true ↔
    (p.expectNoAslr = false ∧ p.brokerSocketSet = false) ∨ p.aslrDisabled = true := by
  unfold PhpProcess.verifyAslrContract PhpProcess.aslrDisabled
  cases p.expectNoAslr <;> cases p.brokerSocketSet <;> cases p.currentPersonality <;> simp

theorem PhpProcess.aslrDisabled_iff (p : PhpProcess) : p.aslrDisabled = true ↔
    p.personalityReadable = true ∧ p.personality ≠ 0xffffffff ∧
      p.personality &&& addrNoRandomize ≠ 0 := by
  unfold PhpProcess.aslrDisabled PhpProcess.currentPersonality
  split
  · next hread => simp [hread]
  · next hread =>
      simp only [Option.any_none, Bool.false_eq_true, false_iff]
      exact fun h => hread ⟨h.1, h.2.1⟩

/-- A call of `personality` with the flag leaves fixed addresses fixed. -/
theorem PhpProcess.aslrDisabled_setPersonality (h : p.aslrDisabled = true)
    (hflag : persona &&& addrNoRandomize ≠ 0) : (p.setPersonality persona).aslrDisabled = true := by
  unfold PhpProcess.setPersonality
  split
  · exact h
  · next hset =>
      rw [PhpProcess.aslrDisabled_iff] at h ⊢
      exact ⟨h.1, hset, hflag⟩

theorem Descends.aslrDisabled (hk : k.Inherited) (h : Descends k q r)
    (hfixed : q.aslrDisabled = true) : r.aslrDisabled = true := by
  induction h with
  | itself => exact hfixed
  | forked _ hfork ih => exact (hk.fork hfork).trans ih
  | executed _ hplain hexecv ih => exact (hk.execv hplain hexecv).1.trans ih
  | environment _ _ _ ih => exact ih
  | personality _ hflag ih => exact PhpProcess.aslrDisabled_setPersonality ih hflag

/-- The process that calls `execv`. -/
theorem aheLaunch_running (h : aheLaunch p a = .running q) :
    ∃ handed, a.execv handed = .ok q ∧ handed.expectNoAslr = true ∧
      (handed.aslrDisabled = true ↔ p.personality ≠ 0xfffbffff) := by
  unfold aheLaunch at h
  cases hcurrent : p.currentPersonality with
  | none =>
      rw [hcurrent] at h
      cases h
  | some current =>
      obtain ⟨hreadable, hmax, rfl⟩ := PhpProcess.currentPersonality_eq_some hcurrent
      simp only [hcurrent] at h
      split at h
      · cases h
      · split at h
        · cases h
        · split at h
          · next php hexecv =>
              cases h
              refine ⟨_, hexecv, rfl, ?_⟩
              rw [PhpProcess.aslrDisabled_iff]
              by_cases hflag : p.personality &&& addrNoRandomize = 0
              · rw [if_pos hflag, PhpProcess.setPersonality]
                by_cases hquestion : p.personality ||| addrNoRandomize = 0xffffffff
                · have hone := (or_addrNoRandomize_eq_max hflag).mp hquestion
                  rw [if_pos hquestion]
                  exact ⟨fun hfixed => absurd hflag hfixed.2.2, fun hother => absurd hone hother⟩
                · have hother := hquestion ∘ (or_addrNoRandomize_eq_max hflag).mpr
                  have hset : addrNoRandomize ≠ 0 := by decide
                  rw [if_neg hquestion]
                  refine ⟨fun _ => hother, fun _ => ⟨hreadable, hquestion, ?_⟩⟩
                  dsimp only
                  rwa [and_addrNoRandomize]
              · have hother : p.personality ≠ 0xfffbffff := by
                  intro heq
                  rw [heq] at hflag
                  exact hflag (by decide)
                simp [hflag, hreadable, hmax, hother]
          · cases h

/-- The launcher makes the contract for PHP and for all that PHP starts, but for one
personality it cannot change. -/
theorem launcher_contract (hk : k.Inherited) (hphp : php.setId = false) (ha : a.Executes k php)
    (h : aheLaunch p a = .running q) :
    (∀ r, Descends k q r → r.verifyAslrContract = true) ↔ p.personality ≠ 0xfffbffff := by
  obtain ⟨handed, hexecv, hexpect, hdisabled⟩ := aheLaunch_running h
  obtain ⟨hkept, hsame⟩ := hk.execv hphp (ha handed q hexecv)
  rw [← hdisabled, ← hkept]
  constructor
  · intro hall
    rcases (PhpProcess.verifyAslrContract_iff q).mp (hall q .itself) with hnone | hfixed
    · rw [hsame, hexpect] at hnone
      cases hnone.1
    · exact hfixed
  · intro hfixed r hr
    exact (PhpProcess.verifyAslrContract_iff r).mpr (.inr (hr.aslrDisabled hk hfixed))

/-- `PER_CLEAR_ON_SETID`. -/
def perClearOnSetid : UInt32 := 0x0740000

/-- `execv` of a program that exists. -/
def executing (program : Program) (p : PhpProcess) : PhpProcess :=
  if program.setId then { p with personality := p.personality &&& ~~~perClearOnSetid } else p

def linuxCalls : ProcessCalls where
  fork p q := q = p
  execv program p q := q = executing program p

theorem linuxCalls_inherited : linuxCalls.Inherited where
  fork := by
    rintro p q rfl
    rfl
  execv := by
    rintro program p q hplain rfl
    simp [executing, hplain]

/-- A process with the default personality becomes one with fixed addresses. -/
theorem launcher_contract_default :
    aheLaunch ⟨0, true, false, none⟩ ⟨true, true, fun p => .ok (executing ⟨false⟩ p)⟩ =
        .running ⟨addrNoRandomize, true, true, none⟩ ∧
      ∀ r, Descends linuxCalls ⟨addrNoRandomize, true, true, none⟩ r →
        r.verifyAslrContract = true := by
  have hexecutes : LauncherAnswers.Executes ⟨true, true, fun p => .ok (executing ⟨false⟩ p)⟩
      linuxCalls ⟨false⟩ := by
    intro p q hok
    cases hok
    rfl
  exact ⟨rfl, (launcher_contract linuxCalls_inherited rfl hexecutes (p := ⟨0, true, false, none⟩)
    rfl).mpr (by decide)⟩

/-- A set-ID PHP is started at random addresses, and says so. -/
example : aheLaunch ⟨0, true, false, none⟩ ⟨true, true, fun p => .ok (executing ⟨true⟩ p)⟩ =
      .running ⟨0, true, true, none⟩ ∧
    PhpProcess.verifyAslrContract ⟨0, true, true, none⟩ = false := by
  decide

end Contract

end Hyperglyph
