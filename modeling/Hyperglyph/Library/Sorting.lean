import Mathlib.Data.List.Sort
import Mathlib.Order.Defs.Unbundled

/-! Sorting by a comparison function, as C's `qsort` does it: nothing is known of the order in
which elements that compare equal come out. -/

/-- A correct `qsort`. -/
structure Qsort (α : Type*) where
  sort : (α → α → Ordering) → List α → List α
  perm : ∀ (compar : α → α → Ordering) [Std.TransCmp compar] (base : List α),
    (sort compar base).Perm base
  sorted : ∀ (compar : α → α → Ordering) [Std.TransCmp compar] (base : List α),
    (sort compar base).Pairwise fun a b => compar a b ≠ .gt

namespace Qsort

variable {α : Type*}

/-- Two sorted lists of the same elements are the same, if only equal elements compare equal. -/
theorem eq_of_sorted {compar : α → α → Ordering} [Std.OrientedCmp compar] {l l' : List α}
    (hseparates : ∀ a ∈ l, ∀ b ∈ l', compar a b = .eq → a = b)
    (h : l.Pairwise fun a b => compar a b ≠ .gt) (h' : l'.Pairwise fun a b => compar a b ≠ .gt)
    (hperm : l.Perm l') : l = l' := by
  refine List.Perm.eq_of_pairwise ?_ h h' hperm
  intro a b ha hb hab hba
  refine hseparates a ha b hb ?_
  have hflip : compar b a = (compar a b).swap := Std.OrientedCmp.eq_swap
  cases hcompar : compar a b with
  | eq => rfl
  | gt => exact absurd hcompar hab
  | lt =>
      rw [hcompar] at hflip
      exact absurd hflip hba

section Insertion

variable (compar : α → α → Ordering)

/-- `a` may stand before `b`. -/
def Le (a b : α) : Prop := (compar a b).isLE = true

instance : DecidableRel (Le compar) := fun a b => inferInstanceAs (Decidable ((compar a b).isLE = true))

variable [Std.TransCmp compar]

instance : IsTrans α (Le compar) where
  trans _ _ _ := Std.TransCmp.isLE_trans

instance : Std.Total (Le compar) where
  total a b := by
    have hflip : compar b a = (compar a b).swap := Std.OrientedCmp.eq_swap
    unfold Le
    rw [hflip]
    cases compar a b with
    | lt => exact .inl rfl
    | eq => exact .inl rfl
    | gt => exact .inr rfl

end Insertion

/-- Sorting by insertion. -/
def insertion (α : Type*) : Qsort α where
  sort compar base := base.insertionSort (Le compar)
  perm compar _ base := List.perm_insertionSort _ base
  sorted compar _ base := by
    refine (List.pairwise_insertionSort (Le compar) base).imp fun hle => ?_
    exact Ordering.isLE_iff_ne_gt.mp hle

end Qsort
