import Mathlib.Tactic.ByContra

/-! Advisory record locks between processes: which owner has what on each byte of a file. An
owner has one lock on a byte at most, a new one takes the place of the old, and closing any
descriptor of a file gives back all that the owner has on it. -/
namespace RecordLock

universe u v

/-- Of a read lock and of a write lock. -/
inductive Kind
  | shared | exclusive
  deriving DecidableEq

/-- Two owners may have these on the same byte. -/
def Compatible : Option Kind → Option Kind → Prop
  | some .exclusive, some _ | some _, some .exclusive => False
  | _, _ => True

theorem compatible_none (k : Option Kind) : Compatible k none := by
  rcases k with _ | _ | _ <;> trivial

theorem compatible_symm {k k' : Option Kind} (h : Compatible k k') : Compatible k' k := by
  cases k with
  | none => exact compatible_none k'
  | some kind =>
      cases k' with
      | none => cases kind <;> trivial
      | some kind' => cases kind <;> cases kind' <;> exact h

theorem compatible_exclusive {k : Option Kind} (h : Compatible (some .exclusive) k) : k = none := by
  rcases k with _ | _ | _
  · rfl
  · exact h.elim
  · exact h.elim

/-- The lock of each owner on each byte of each file. -/
structure Table (Owner : Type u) (File : Type v) where
  lock : Owner → File → Nat → Option Kind

namespace Table

section Soundness

variable {Owner : Type u} {File : Type v}

def empty : Table Owner File := ⟨fun _ _ _ => none⟩

/-- Nobody else has a lock on these bytes that is in the way. -/
def Grantable (t : Table Owner File) (o : Owner) (f : File) (start length : Nat)
    (kind : Option Kind) : Prop :=
  ∀ o', o' ≠ o → ∀ n, start ≤ n → n < start + length → Compatible (t.lock o' f n) kind

/-- No two owners are in each other's way. -/
def Sound (t : Table Owner File) : Prop :=
  ∀ f n o o', o ≠ o' → Compatible (t.lock o f n) (t.lock o' f n)

variable {t t' : Table Owner File} {o o' : Owner} {f : File} {start length n : Nat}

theorem sound_empty : (empty : Table Owner File).Sound := fun _ _ _ _ _ => trivial

/-- Giving locks back keeps soundness. -/
theorem Sound.of_le (h : t.Sound)
    (hle : ∀ o f n, t'.lock o f n = none ∨ t'.lock o f n = t.lock o f n) : t'.Sound := by
  intro f n o o' hne
  rcases hle o f n with hnone | hsame
  · rw [hnone]
    exact compatible_symm (compatible_none _)
  · rcases hle o' f n with hnone | hsame'
    · rw [hnone]
      exact compatible_none _
    · rw [hsame, hsame']
      exact h f n o o' hne

theorem grantable_none : t.Grantable o f start length none := fun _ _ _ _ _ => compatible_none _

/-- Whoever has a write lock on a byte is the only one with a lock there. -/
theorem Sound.exclusive (h : t.Sound) (ho : t.lock o f n = some .exclusive) {kind : Kind}
    (ho' : t.lock o' f n = some kind) : o = o' := by
  by_contra hne
  have hfree := h f n o o' hne
  rw [ho] at hfree
  rw [compatible_exclusive hfree] at ho'
  cases ho'

/-- The owner is gone. -/
def exit [DecidableEq Owner] (t : Table Owner File) (o : Owner) : Table Owner File :=
  ⟨fun o' f n => if o' = o then none else t.lock o' f n⟩

theorem exit_of_ne [DecidableEq Owner] (h : o' ≠ o) : (t.exit o).lock o' f n = t.lock o' f n :=
  if_neg h

theorem exit_self [DecidableEq Owner] : (t.exit o).lock o f n = none := if_pos rfl

theorem exit_le [DecidableEq Owner] : (t.exit o).lock o' f n = none ∨
    (t.exit o).lock o' f n = t.lock o' f n := by
  by_cases heq : o' = o
  · subst heq
    exact .inl exit_self
  · exact .inr (exit_of_ne heq)

end Soundness

variable {Owner : Type u} {File : Type v} [DecidableEq Owner] [DecidableEq File]
  {t : Table Owner File} {o o' : Owner} {f f' : File} {start length n : Nat} {kind : Option Kind}
  {files : List File}

/-- The owner's lock on these bytes becomes `kind`. -/
def set (t : Table Owner File) (o : Owner) (f : File) (start length : Nat) (kind : Option Kind) :
    Table Owner File :=
  ⟨fun o' f' n =>
    if o' = o ∧ f' = f ∧ start ≤ n ∧ n < start + length then kind else t.lock o' f' n⟩

/-- The owner closed descriptors of these files. -/
def close (t : Table Owner File) (o : Owner) (files : List File) : Table Owner File :=
  ⟨fun o' f n => if o' = o ∧ f ∈ files then none else t.lock o' f n⟩

theorem set_of_ne (h : o' ≠ o) : (t.set o f start length kind).lock o' f' n = t.lock o' f' n :=
  if_neg fun hin => h hin.1

/-- Of a lock on one byte. -/
theorem set_self : (t.set o f start 1 kind).lock o f' n =
    if f' = f ∧ n = start then kind else t.lock o f' n := by
  have hbyte : (f' = f ∧ start ≤ n ∧ n < start + 1) ↔ f' = f ∧ n = start := by
    rw [Nat.lt_succ_iff, and_comm (a := start ≤ n), ← Nat.le_antisymm_iff]
  simp only [set, true_and, hbyte]

theorem close_of_ne (h : o' ≠ o) : (t.close o files).lock o' f n = t.lock o' f n :=
  if_neg fun hin => h hin.1

theorem close_self : (t.close o files).lock o f n = if f ∈ files then none else t.lock o f n := by
  simp only [close, true_and]

theorem close_le : (t.close o files).lock o' f n = none ∨
    (t.close o files).lock o' f n = t.lock o' f n := by
  by_cases heq : o' = o
  · subst heq
    rw [close_self]
    split
    · exact .inl rfl
    · exact .inr rfl
  · exact .inr (close_of_ne heq)

theorem Sound.set (h : t.Sound) (hgrant : t.Grantable o f start length kind) :
    (t.set o f start length kind).Sound := by
  have hother : ∀ {o'} (f' : File) (n : Nat), o' ≠ o →
      Compatible (t.lock o' f' n) ((t.set o f start length kind).lock o f' n) := by
    intro o' f' n hne
    unfold Table.set
    dsimp only
    split
    · next hin =>
        obtain ⟨-, rfl, hlow, hhigh⟩ := hin
        exact hgrant o' hne n hlow hhigh
    · exact h f' n o' o hne
  intro f' n p q hne
  by_cases hp : p = o
  · subst hp
    rw [set_of_ne (Ne.symm hne)]
    exact compatible_symm (hother f' n (Ne.symm hne))
  · rw [set_of_ne hp]
    by_cases hq : q = o
    · subst hq
      exact hother f' n hp
    · rw [set_of_ne hq]
      exact h f' n p q hne

end Table

end RecordLock
