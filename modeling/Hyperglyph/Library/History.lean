import Mathlib.Data.List.Basic

/-! Order of occurrence in a history, a list that grows at its end. -/
namespace History

variable {Event : Type*} {history more : List Event} {x y z : Event}

/-- Some occurrence of `x` is followed by an occurrence of `y`. -/
def Precedes (history : List Event) (x y : Event) : Prop := [x, y].Sublist history

theorem Precedes.left (h : Precedes history x y) : x ∈ history :=
  h.subset List.mem_cons_self

theorem Precedes.right (h : Precedes history x y) : y ∈ history :=
  h.subset (List.mem_cons_of_mem _ List.mem_cons_self)

theorem Precedes.extend (h : Precedes history x y) (more : List Event) :
    Precedes (history ++ more) x y :=
  h.trans (List.sublist_append_left history more)

theorem precedes_of_mem (hx : x ∈ history) (hy : y ∈ more) : Precedes (history ++ more) x y :=
  List.Sublist.append (List.singleton_sublist.mpr hx) (List.singleton_sublist.mpr hy)

/-- A new order between two events ends in the new part. -/
theorem precedes_append_iff :
    Precedes (history ++ more) x y ↔
      Precedes history x y ∨ (x ∈ history ∧ y ∈ more) ∨ Precedes more x y := by
  constructor
  · intro h
    obtain ⟨left, right, heq, hleft, hright⟩ := List.sublist_append_iff.mp h
    rcases left with _ | ⟨a, _ | ⟨b, rest⟩⟩
    · rw [List.nil_append] at heq
      subst heq
      exact .inr (.inr hright)
    · obtain ⟨hxa, hright'⟩ := List.cons.inj heq
      change [y] = right at hright'
      subst hxa hright'
      exact .inr (.inl ⟨List.singleton_sublist.mp hleft, List.singleton_sublist.mp hright⟩)
    · obtain ⟨hxa, htail⟩ := List.cons.inj heq
      obtain ⟨hyb, hnil⟩ := List.cons.inj htail
      obtain ⟨hrest, -⟩ := List.append_eq_nil_iff.mp hnil.symm
      subst hxa hyb hrest
      exact .inl hleft
  · rintro (h | ⟨hx, hy⟩ | h)
    · exact h.extend more
    · exact precedes_of_mem hx hy
    · exact h.trans (List.sublist_append_right history more)

/-- Three events in this order. -/
def InOrder (history : List Event) (x y z : Event) : Prop := [x, y, z].Sublist history

theorem InOrder.extend (h : InOrder history x y z) (more : List Event) :
    InOrder (history ++ more) x y z :=
  h.trans (List.sublist_append_left history more)

theorem Precedes.inOrder (h : Precedes history x y) (hz : z ∈ more) :
    InOrder (history ++ more) x y z :=
  List.Sublist.append h (List.singleton_sublist.mpr hz)

theorem InOrder.left (h : InOrder history x y z) : x ∈ history :=
  h.subset List.mem_cons_self

theorem InOrder.mid (h : InOrder history x y z) : y ∈ history :=
  h.subset (List.mem_cons_of_mem _ List.mem_cons_self)

theorem InOrder.precedes (h : InOrder history x y z) : Precedes history x y :=
  ((List.sublist_append_left [x, y] [z])).trans h

end History
