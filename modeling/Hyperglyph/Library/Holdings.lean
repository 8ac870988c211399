import Mathlib.Data.List.Nodup
import Mathlib.Data.List.Perm.Basic
import Hyperglyph.Library.DescriptorTable

/-! Accounting for descriptors: everything a program opened was closed again or is open now,
each opening once. Objects may be opened at several numbers; the accounts are of openings. A
program may share its table with others, or have it to itself. -/

namespace DescriptorTable

variable {Object : Type*}

/-- `held` lists the descriptors a program has open, besides those of `base`, which are not its
own. The objects it opened so far are those it closed and those held. -/
structure Custody (base t : DescriptorTable Object) (opened closed : List Object)
    (held : List (Nat × Object)) : Prop where
  distinct : (held.map Prod.fst).Nodup
  table : ∀ n o, (n, o) ∈ held → t n = some o
  others : ∀ n, n ∉ held.map Prod.fst → t n = base n
  fresh : ∀ n ∈ held.map Prod.fst, base n = none
  balance : opened.Perm (closed ++ held.map Prod.snd)

section Custody

variable {base t : DescriptorTable Object} {opened closed : List Object}
  {held held' : List (Nat × Object)} {n : Nat} {o : Object}

theorem Custody.start (base : DescriptorTable Object) : Custody base base [] [] [] where
  distinct := List.nodup_nil
  table := by simp
  others := fun _ _ => rfl
  fresh := by simp
  balance := List.Perm.refl _

theorem Custody.perm (h : Custody base t opened closed held) (hheld : held.Perm held') :
    Custody base t opened closed held' where
  distinct := (hheld.map Prod.fst).nodup_iff.mp h.distinct
  table := fun n o hmem => h.table n o (hheld.mem_iff.mpr hmem)
  others := fun n hmem => h.others n (mt (hheld.map Prod.fst).mem_iff.mp hmem)
  fresh := fun n hmem => h.fresh n ((hheld.map Prod.fst).mem_iff.mpr hmem)
  balance := h.balance.trans ((hheld.map Prod.snd).append_left closed)

theorem Custody.not_held (h : Custody base t opened closed held) (hn : t.Free n) :
    n ∉ held.map Prod.fst := by
  intro hmem
  obtain ⟨⟨m, p⟩, hheld, rfl⟩ := List.mem_map.mp hmem
  cases hn.symm.trans (h.table m p hheld)

theorem Custody.install (h : Custody base t opened closed held) (hn : t.Free n) (o : Object) :
    Custody base (t.install n o) (opened ++ [o]) closed ((n, o) :: held) := by
  have hnew := h.not_held hn
  constructor
  · exact List.nodup_cons.mpr ⟨hnew, h.distinct⟩
  · intro m p hmem
    rcases List.mem_cons.mp hmem with heq | hheld
    · cases heq
      exact if_pos rfl
    · have hm := h.table m p hheld
      have hne : m ≠ n := by
        rintro rfl
        cases hn.symm.trans hm
      exact (if_neg hne).trans hm
  · intro m hmem
    rw [List.map_cons, List.mem_cons, not_or] at hmem
    exact (if_neg hmem.1).trans (h.others m hmem.2)
  · intro m hmem
    rcases List.mem_cons.mp hmem with rfl | hheld
    · exact (h.others _ hnew).symm.trans hn
    · exact h.fresh m hheld
  · rw [List.map_cons]
    exact (List.perm_append_singleton o opened).trans
      ((h.balance.cons o).trans List.perm_middle.symm)

theorem Custody.remove {before after : List (Nat × Object)}
    (h : Custody base t opened closed (before ++ (n, o) :: after)) :
    Custody base (t.remove n) opened (closed ++ [o]) (before ++ after) := by
  have hfront := h.perm List.perm_middle
  obtain ⟨hgone, hrest⟩ := List.nodup_cons.mp hfront.distinct
  constructor
  · exact hrest
  · intro m p hmem
    have hne : m ≠ n := by
      rintro rfl
      exact hgone (List.mem_map.mpr ⟨(m, p), hmem, rfl⟩)
    exact (if_neg hne).trans (hfront.table m p (List.mem_cons_of_mem _ hmem))
  · intro m hmem
    by_cases hm : m = n
    · rw [hm, hfront.fresh n List.mem_cons_self]
      exact if_pos rfl
    · refine (if_neg hm).trans (hfront.others m ?_)
      rw [List.map_cons, List.mem_cons, not_or]
      exact ⟨hm, hmem⟩
  · exact fun m hmem => hfront.fresh m (List.mem_cons_of_mem _ hmem)
  · refine hfront.balance.trans ?_
    rw [List.append_assoc]
    exact List.Perm.refl _

/-- What the others do does not touch what is held. -/
theorem Custody.interfere {t' : DescriptorTable Object} (h : Custody base t opened closed held)
    (hkept : ∀ n ∈ held.map Prod.fst, t' n = t n) :
    ∃ base', Custody base' t' opened closed held := by
  classical
  refine ⟨fun n => if n ∈ held.map Prod.fst then none else t' n, h.distinct, ?_, ?_, ?_, h.balance⟩
  · intro n o hmem
    exact (hkept n (List.mem_map.mpr ⟨_, hmem, rfl⟩)).trans (h.table n o hmem)
  · exact fun n hmem => (if_neg hmem).symm
  · exact fun n hmem => if_pos hmem

/-- When nothing is held any more, every opening has its one closing and the rest of the table
is as it was. -/
theorem Custody.settled (h : Custody base t opened closed []) : t = base ∧ opened.Perm closed := by
  refine ⟨?_, ?_⟩
  · funext n
    exact h.others n (by simp)
  · have hbalance := h.balance
    rwa [List.map_nil, List.append_nil] at hbalance

end Custody

/-- `held` lists the open descriptors, and the objects opened so far are those closed and
those held. -/
structure Accounts (t : DescriptorTable Object) (opened closed : List Object)
    (held : List (Nat × Object)) : Prop where
  distinct : (held.map Prod.fst).Nodup
  table : ∀ n o, t.get (Int.ofNat n) = some o ↔ (n, o) ∈ held
  balance : opened.Perm (closed ++ held.map Prod.snd)

def Balanced (t : DescriptorTable Object) (opened closed : List Object) : Prop :=
  ∃ held, Accounts t opened closed held

variable {t : DescriptorTable Object} {opened opened' closed closed' : List Object} {n : Nat}
  {fd fd' : Int} {o : Object}

/-- A process of its own has everything that is open in its custody. -/
theorem accounts_iff {held : List (Nat × Object)} :
    Accounts t opened closed held ↔ Custody empty t opened closed held := by
  constructor
  · rintro ⟨hdistinct, htable, hbalance⟩
    refine ⟨hdistinct, fun n o => (htable n o).mpr, ?_, fun _ _ => rfl, hbalance⟩
    intro n hmem
    cases ht : t n with
    | none => rfl
    | some o => exact absurd (List.mem_map.mpr ⟨_, (htable n o).mp ht, rfl⟩) hmem
  · rintro ⟨hdistinct, htable, hothers, -, hbalance⟩
    refine ⟨hdistinct, fun n o => ⟨?_, htable n o⟩, hbalance⟩
    intro ht
    by_cases hmem : n ∈ held.map Prod.fst
    · obtain ⟨⟨m, p⟩, hheld, rfl⟩ := List.mem_map.mp hmem
      cases (htable m p hheld).symm.trans ht
      exact hheld
    · cases (hothers n hmem).symm.trans ht

theorem Balanced.empty : Balanced (empty : DescriptorTable Object) [] [] :=
  ⟨[], accounts_iff.mpr (.start _)⟩

theorem Balanced.perm (h : Balanced t opened closed) (hopened : opened'.Perm opened)
    (hclosed : closed.Perm closed') : Balanced t opened' closed' := by
  obtain ⟨held, hdistinct, htable, hbalance⟩ := h
  exact ⟨held, hdistinct, htable, hopened.trans (hbalance.trans (hclosed.append_right _))⟩

theorem Balanced.install (h : Balanced t opened closed) (hn : t.Free n) (o : Object) :
    Balanced (t.install n o) (opened ++ [o]) closed := by
  obtain ⟨held, haccounts⟩ := h
  exact ⟨(n, o) :: held, accounts_iff.mpr ((accounts_iff.mp haccounts).install hn o)⟩

theorem Balanced.remove (h : Balanced t opened closed) (hfd : t.get fd = some o) :
    Balanced (t.remove fd) opened (closed ++ [o]) := by
  obtain ⟨held, haccounts⟩ := h
  obtain ⟨n, rfl⟩ := Int.eq_ofNat_of_zero_le (nonneg_of_get hfd)
  obtain ⟨before, after, rfl⟩ := List.append_of_mem ((haccounts.table n o).mp hfd)
  exact ⟨before ++ after, accounts_iff.mpr (accounts_iff.mp haccounts).remove⟩

/-- Openings that were undone at once. -/
theorem Balanced.append (h : Balanced t opened closed) (undone : List Object) :
    Balanced t (opened ++ undone) (closed ++ undone) := by
  obtain ⟨held, hdistinct, htable, hbalance⟩ := h
  refine ⟨held, hdistinct, htable, (hbalance.append_right undone).trans ?_⟩
  rw [List.append_assoc, List.append_assoc]
  exact List.perm_append_comm.append_left closed

/-! ### What balanced accounts say -/

/-- When nothing is open any more, every opening has its one closing. -/
theorem Balanced.settled (h : Balanced t opened closed) (hnone : ∀ fd, t.get fd = none) :
    opened.Perm closed := by
  obtain ⟨held, -, htable, hbalance⟩ := h
  have hempty : held = [] := by
    apply List.eq_nil_iff_forall_not_mem.mpr
    rintro ⟨n, o⟩ hmem
    cases (hnone _).symm.trans ((htable n o).mpr hmem)
  rwa [hempty, List.map_nil, List.append_nil] at hbalance

theorem Balanced.opened_of_closed (h : Balanced t opened closed) (ho : o ∈ closed) :
    o ∈ opened := by
  obtain ⟨held, -, -, hbalance⟩ := h
  exact hbalance.mem_iff.mpr (List.mem_append_left _ ho)

/-- What was opened and not closed is open. -/
theorem Balanced.open_of_not_closed (h : Balanced t opened closed) (ho : o ∈ opened)
    (hclosed : o ∉ closed) : ∃ fd, t.get fd = some o := by
  obtain ⟨held, -, htable, hbalance⟩ := h
  have hheld := (List.mem_append.mp (hbalance.mem_iff.mp ho)).resolve_left hclosed
  obtain ⟨⟨n, _⟩, hmem, rfl⟩ := List.mem_map.mp hheld
  exact ⟨n, (htable n _).mpr hmem⟩

section Distinct

variable (h : Balanced t opened closed) (hnodup : opened.Nodup)

include h hnodup

theorem Balanced.closed_nodup : closed.Nodup := by
  obtain ⟨held, -, -, hbalance⟩ := h
  exact (List.nodup_append.mp (hbalance.nodup_iff.mp hnodup)).1

/-- What was closed is not open. -/
theorem Balanced.not_closed (hfd : t.get fd = some o) : o ∉ closed := by
  obtain ⟨held, -, htable, hbalance⟩ := h
  obtain ⟨n, rfl⟩ := Int.eq_ofNat_of_zero_le (nonneg_of_get hfd)
  have hmem := (htable n o).mp hfd
  intro hclosed
  have hheld : o ∈ held.map Prod.snd := List.mem_map.mpr ⟨_, hmem, rfl⟩
  exact (List.nodup_append.mp (hbalance.nodup_iff.mp hnodup)).2.2 o hclosed o hheld rfl

end Distinct

end DescriptorTable
