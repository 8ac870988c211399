import Mathlib.Data.List.Induction
import Mathlib.Data.List.Perm.Basic
import Mathlib.Data.List.Nodup

/-! Constant-time removal from an array that does not keep order: the last element
replaces the removed one and the array shrinks by one. -/

namespace SwapRemove

variable {α : Type*}

/-- `a[index] = a[count - 1]; count--`. -/
def swapRemove (l : List α) (index : Nat) : List α :=
  match l.getLast? with
  | none => []
  | some last => (l.set index last).dropLast

theorem swapRemove_concat (l : List α) (last : α) {index : Nat} (h : index < l.length) :
    swapRemove (l ++ [last]) index = l.set index last := by
  simp only [swapRemove, List.getLast?_append, List.getLast?_singleton, Option.some_or,
    List.set_append_left _ _ h, List.dropLast_concat]

@[simp] theorem swapRemove_length (l : List α) (last : α) :
    swapRemove (l ++ [last]) l.length = l := by
  simp [swapRemove]

/-- The removed element and the result together are the original, up to order. -/
theorem perm_swapRemove {l : List α} {index : Nat} (h : index < l.length) :
    l.Perm (l[index] :: swapRemove l index) := by
  induction l using List.reverseRecOn with
  | nil => exact absurd h (Nat.not_lt_zero _)
  | append_singleton l last _ =>
      rcases Nat.lt_or_ge index l.length with hlt | hge
      · rw [swapRemove_concat l last hlt, List.getElem_append_left hlt]
        have hl : l = l.take index ++ l[index] :: l.drop (index + 1) := by
          rw [List.getElem_cons_drop, List.take_append_drop]
        rw [List.set_eq_take_append_cons_drop, if_pos hlt]
        calc (l ++ [last]).Perm (last :: l) := List.perm_append_singleton last l
          _ = last :: (l.take index ++ l[index] :: l.drop (index + 1)) := by rw [← hl]
          _ |>.Perm (last :: l[index] :: (l.take index ++ l.drop (index + 1))) :=
              List.perm_middle.cons last
          _ |>.Perm (l[index] :: last :: (l.take index ++ l.drop (index + 1))) := .swap _ _ _
          _ |>.Perm (l[index] :: (l.take index ++ last :: l.drop (index + 1))) :=
              List.perm_middle.symm.cons _
      · have heq : index = l.length := by
          rw [List.length_append, List.length_singleton] at h
          omega
        subst heq
        rw [swapRemove_length, List.getElem_concat_length rfl]
        exact List.perm_append_singleton last l

theorem length_swapRemove {l : List α} {index : Nat} (h : index < l.length) :
    (swapRemove l index).length + 1 = l.length := by
  rw [(perm_swapRemove h).length_eq, List.length_cons]

theorem mem_of_mem_swapRemove {l : List α} {index : Nat} (h : index < l.length) {x : α}
    (hx : x ∈ swapRemove l index) : x ∈ l :=
  (perm_swapRemove h).mem_iff.mpr (List.mem_cons_of_mem _ hx)

theorem nodup_swapRemove {l : List α} {index : Nat} (h : index < l.length) (hl : l.Nodup) :
    l[index] ∉ swapRemove l index ∧ (swapRemove l index).Nodup :=
  List.nodup_cons.mp ((perm_swapRemove h).nodup_iff.mp hl)

/-- Elements below the freed slot stay where they are, which is what lets a loop that
walks the array downwards remove the element it stands on. -/
theorem getElem?_swapRemove_of_lt {l : List α} {index j : Nat} (h : index < l.length)
    (hj : j < index) : (swapRemove l index)[j]? = l[j]? := by
  induction l using List.reverseRecOn with
  | nil => exact absurd h (Nat.not_lt_zero _)
  | append_singleton l last _ =>
      rcases Nat.lt_or_ge index l.length with hlt | hge
      · rw [swapRemove_concat l last hlt, List.getElem?_set_ne (Nat.ne_of_gt hj),
          List.getElem?_append_left (Nat.lt_trans hj hlt)]
      · have heq : index = l.length := by
          rw [List.length_append, List.length_singleton] at h
          omega
        subst heq
        rw [swapRemove_length, List.getElem?_append_left hj]

theorem map_swapRemove {β : Type*} (f : α → β) (l : List α) (index : Nat) :
    (swapRemove l index).map f = swapRemove (l.map f) index := by
  unfold swapRemove
  rw [List.getLast?_map]
  cases l.getLast? with
  | none => rfl
  | some last => simp only [Option.map_some, List.map_dropLast, List.map_set]

/-- What stood at the removed index does not matter. -/
theorem swapRemove_set (l : List α) (index : Nat) (x : α) :
    swapRemove (l.set index x) index = swapRemove l index := by
  induction l using List.reverseRecOn with
  | nil => rfl
  | append_singleton l last _ =>
      rcases Nat.lt_trichotomy index l.length with hlt | heq | hgt
      · rw [List.set_append_left _ _ hlt, swapRemove_concat _ last (by simpa using hlt),
          swapRemove_concat l last hlt, List.set_set]
      · subst heq
        rw [List.set_append_right _ _ (Nat.le_refl _), Nat.sub_self, List.set_cons_zero,
          swapRemove_length, swapRemove_length]
      · rw [List.set_eq_of_length_le (by simp; omega)]

/-! ### Walking an array downwards -/

/-- A walk over `start` that has come down to `index`: the array still has everything below
that index, and `kept` of what was above it. -/
structure Swept (start : List α) (index : Nat) (l kept : List α) : Prop where
  below : ∀ j < index, l[j]? = start[j]?
  perm : l.Perm (start.take index ++ kept)

variable {start l kept : List α} {index : Nat} {x y : α}

theorem Swept.begin (l : List α) : Swept l l.length l [] where
  below _ _ := rfl
  perm := by rw [List.take_length, List.append_nil]

theorem Swept.at_index (h : Swept start (index + 1) l kept) : l[index]? = start[index]? :=
  h.below index (Nat.lt_succ_self index)

theorem Swept.split (h : Swept start (index + 1) l kept) (hx : start[index]? = some x) :
    l.Perm (x :: (start.take index ++ kept)) := by
  have htake : start.take (index + 1) = start.take index ++ [x] := by
    rw [List.take_add_one, hx, Option.toList_some]
  calc l.Perm (start.take (index + 1) ++ kept) := h.perm
    _ = start.take index ++ x :: kept := by rw [htake, List.append_assoc, List.singleton_append]
    _ |>.Perm (x :: (start.take index ++ kept)) := List.perm_middle

theorem Swept.keep (h : Swept start (index + 1) l kept) (hx : start[index]? = some x) (y : α) :
    Swept start index (l.set index y) (y :: kept) where
  below j hj := by rw [List.getElem?_set_ne (by omega), h.below j (by omega)]
  perm := by
    obtain ⟨hindex, hget⟩ := List.getElem?_eq_some_iff.mp (h.at_index.trans hx)
    have hothers : (l.eraseIdx index).Perm (start.take index ++ kept) := by
      refine List.Perm.cons_inv (a := x) (List.Perm.trans ?_ (h.split hx))
      rw [← hget]
      exact List.getElem_cons_eraseIdx_perm hindex
    calc (l.set index y).Perm (y :: l.eraseIdx index) := List.set_perm_cons_eraseIdx hindex y
      _ |>.Perm (y :: (start.take index ++ kept)) := hothers.cons y
      _ |>.Perm (start.take index ++ y :: kept) := List.perm_middle.symm

theorem Swept.drop (h : Swept start (index + 1) l kept) (hx : start[index]? = some x) :
    Swept start index (swapRemove l index) kept := by
  obtain ⟨hindex, hget⟩ := List.getElem?_eq_some_iff.mp (h.at_index.trans hx)
  constructor
  · intro j hj
    rw [getElem?_swapRemove_of_lt hindex hj, h.below j (by omega)]
  · refine List.Perm.cons_inv (a := x) (List.Perm.trans ?_ (h.split hx))
    rw [← hget]
    exact (perm_swapRemove hindex).symm

theorem Swept.finish (h : Swept start 0 l kept) : l.Perm kept := by
  simpa using h.perm

end SwapRemove
