import Mathlib.Tactic.ByContra

/-! The descriptor table of one process: which object each descriptor number names.
Numbers are handed out by a kernel; programs hold them as integers, with negative values
for "no descriptor". -/

/-- Entry `n` is the object that number `n` names, if it is open. -/
def DescriptorTable (Object : Type*) := Nat → Option Object

namespace DescriptorTable

variable {Object : Type*}

def empty : DescriptorTable Object := fun _ => none

/-- What the program's integer names; a negative integer names nothing. -/
def get (t : DescriptorTable Object) : Int → Option Object
  | .ofNat n => t n
  | .negSucc _ => none

def install (t : DescriptorTable Object) (n : Nat) (o : Object) : DescriptorTable Object :=
  fun m => if m = n then some o else t m

def remove (t : DescriptorTable Object) : Int → DescriptorTable Object
  | .ofNat n => fun m => if m = n then none else t m
  | .negSucc _ => t

/-- A number the kernel may hand out. -/
def Free (t : DescriptorTable Object) (n : Nat) : Prop := t n = none

instance (t : DescriptorTable Object) (n : Nat) : Decidable (t.Free n) :=
  match h : t n with
  | none => .isTrue h
  | some _ => .isFalse (by simp [Free, h])

variable {t : DescriptorTable Object}

@[simp] theorem get_empty (fd : Int) : (empty : DescriptorTable Object).get fd = none := by
  cases fd <;> rfl

theorem get_neg {fd : Int} (h : fd < 0) : t.get fd = none := by
  cases fd with
  | ofNat n => exact absurd h (by simp)
  | negSucc n => rfl

theorem nonneg_of_get {fd : Int} {o : Object} (h : t.get fd = some o) : 0 ≤ fd := by
  by_contra hneg
  rw [get_neg (Int.not_le.mp hneg)] at h
  cases h

theorem Free.get {n : Nat} (h : t.Free n) : t.get (n : Int) = none := h

theorem get_install (n : Nat) (o : Object) (fd : Int) :
    (t.install n o).get fd = if fd = n then some o else t.get fd := by
  cases fd with
  | ofNat m =>
      simp only [DescriptorTable.get, install, Int.ofNat_eq_natCast, Int.ofNat_inj]
  | negSucc m => simp [DescriptorTable.get]

@[simp] theorem get_install_self (n : Nat) (o : Object) :
    (t.install n o).get (n : Int) = some o := by
  rw [get_install, if_pos rfl]

theorem get_install_of_ne {n : Nat} {fd : Int} (h : fd ≠ n) (o : Object) :
    (t.install n o).get fd = t.get fd := by
  rw [get_install, if_neg h]

/-- Installing at a free number keeps every open descriptor. -/
theorem get_install_of_open {n : Nat} {fd : Int} {o p : Object} (hn : t.Free n)
    (h : t.get fd = some p) : (t.install n o).get fd = some p := by
  rw [get_install_of_ne, h]
  rintro rfl
  rw [hn.get] at h
  cases h

theorem get_remove (fd fd' : Int) :
    (t.remove fd).get fd' = if fd' = fd then none else t.get fd' := by
  cases fd with
  | ofNat n =>
      cases fd' with
      | ofNat m =>
          simp only [DescriptorTable.get, remove, Int.ofNat_eq_natCast, Int.ofNat_inj]
      | negSucc m => simp [DescriptorTable.get]
  | negSucc n =>
      split
      · next h => subst h; rfl
      · rfl

@[simp] theorem get_remove_self (fd : Int) : (t.remove fd).get fd = none := by
  rw [get_remove, if_pos rfl]

theorem get_remove_of_ne {fd fd' : Int} (h : fd' ≠ fd) : (t.remove fd).get fd' = t.get fd' := by
  rw [get_remove, if_neg h]

/-- Removing a number that is not open changes nothing. -/
theorem remove_of_closed {fd : Int} (h : t.get fd = none) : t.remove fd = t := by
  cases fd with
  | ofNat n =>
      funext m
      simp only [remove]
      split
      · next hm => rw [hm]; exact h.symm
      · rfl
  | negSucc n => rfl

theorem remove_comm (fd fd' : Int) : (t.remove fd).remove fd' = (t.remove fd').remove fd := by
  cases fd <;> cases fd' <;> first
    | rfl
    | (funext m; simp only [remove]; split <;> split <;> rfl)

/-- Closing what was just opened at a free number leaves the table as it was. -/
theorem remove_install {n : Nat} (h : t.Free n) (o : Object) :
    (t.install n o).remove (n : Int) = t := by
  funext m
  simp only [install, remove]
  split
  · next hm => rw [hm]; exact h.symm
  · rfl

/-- Removing descriptors opens nothing. -/
theorem get_of_get_remove {fd fd' : Int} {o : Object} (h : (t.remove fd).get fd' = some o) :
    fd' ≠ fd ∧ t.get fd' = some o := by
  rw [get_remove] at h
  split at h
  · cases h
  · next hne => exact ⟨hne, h⟩

end DescriptorTable
