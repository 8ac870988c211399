import Mathlib.Data.List.TakeDrop
import Hyperglyph.Library.SwapRemove

/-! A block of memory used as an array: some of its entries were written, and a program knows how
many of them it may read. An access outside of the block, or of an entry that was never
written, is `none`. -/

universe u

/-- The entries of a block; those never written are `none`. -/
structure Block (α : Type u) where
  entries : List (Option α)

namespace Block

variable {α : Type u}

def empty : Block α := ⟨[]⟩

def size (b : Block α) : Nat := b.entries.length

/-- `b[i]`, where `count` entries may be used. -/
def read (b : Block α) (count i : Nat) : Option α :=
  if i < count then b.entries[i]?.join else none

/-- `b[i] = x`, where `count` entries may be used. -/
def write (b : Block α) (count i : Nat) (x : α) : Option (Block α) :=
  if i < count ∧ i < b.size then some ⟨b.entries.set i (some x)⟩ else none

/-- Reallocation: what fits of the old entries stays, and new ones are not written. -/
def resize (b : Block α) (size : Nat) : Block α :=
  ⟨b.entries.take size ++ List.replicate (size - b.size) none⟩

/-- The first `count` entries, all of them written. -/
def first (b : Block α) (count : Nat) : Option (List α) :=
  if count ≤ b.size then (b.entries.take count).mapM id else none

/-- The block with `l` in its first entries. -/
def overwrite (b : Block α) (l : List α) : Block α :=
  ⟨l.map some ++ b.entries.drop l.length⟩

/-- The block begins with the elements of `l`. -/
def Holds (b : Block α) (l : List α) : Prop := ∃ spare, b.entries = l.map some ++ spare

variable {b : Block α} {l l' : List α} {count i : Nat} {x : α}

theorem holds_nil (b : Block α) : b.Holds [] := ⟨b.entries, rfl⟩

theorem Holds.length_le (h : b.Holds l) : l.length ≤ b.size := by
  obtain ⟨spare, hspare⟩ := h
  rw [size, hspare, List.length_append, List.length_map]
  exact Nat.le_add_right _ _

theorem Holds.of_append (h : b.Holds (l ++ l')) : b.Holds l := by
  obtain ⟨spare, hspare⟩ := h
  refine ⟨l'.map some ++ spare, ?_⟩
  rw [hspare, List.map_append, List.append_assoc]

theorem Holds.getElem? (h : b.Holds l) (hx : l[i]? = some x) : b.entries[i]? = some (some x) := by
  obtain ⟨spare, hspare⟩ := h
  obtain ⟨hi, -⟩ := List.getElem?_eq_some_iff.mp hx
  rw [hspare, List.getElem?_append_left (by rwa [List.length_map]), List.getElem?_map, hx,
    Option.map_some]

theorem Holds.read (h : b.Holds l) (hx : l[i]? = some x) (hcount : i < count) :
    b.read count i = some x := by
  rw [Block.read, if_pos hcount, h.getElem? hx]
  rfl

/-- Reading through the count is reading the list. -/
theorem Holds.read_eq (h : b.Holds l) (i : Nat) : b.read l.length i = l[i]? := by
  by_cases hi : i < l.length
  · rw [List.getElem?_eq_getElem hi]
    exact h.read (List.getElem?_eq_getElem hi) hi
  · rw [Block.read, if_neg hi, List.getElem?_eq_none (Nat.le_of_not_lt hi)]

/-- Writing an entry in use. -/
theorem Holds.write (h : b.Holds l) (hi : i < l.length) (hcount : i < count) (x : α) :
    ∃ b', b.write count i x = some b' ∧ b'.Holds (l.set i x) ∧ b'.size = b.size := by
  have hsize : i < b.size := Nat.lt_of_lt_of_le hi h.length_le
  refine ⟨_, if_pos ⟨hcount, hsize⟩, ?_, ?_⟩
  · obtain ⟨spare, hspare⟩ := h
    refine ⟨spare, ?_⟩
    have hmap : i < (l.map some).length := by rwa [List.length_map]
    rw [hspare, List.set_append_left _ _ hmap, List.map_set]
  · exact List.length_set

/-- Writing the entry behind those in use. -/
theorem Holds.push (h : b.Holds l) (count : Nat) (hsize : l.length < b.size)
    (hcount : l.length < count) (x : α) :
    ∃ b', b.write count l.length x = some b' ∧ b'.Holds (l ++ [x]) ∧ b'.size = b.size := by
  refine ⟨_, if_pos ⟨hcount, hsize⟩, ?_, ?_⟩
  · obtain ⟨spare, hspare⟩ := h
    cases spare with
    | nil =>
        rw [size, hspare, List.append_nil, List.length_map] at hsize
        exact absurd hsize (Nat.lt_irrefl _)
    | cons old spare =>
        refine ⟨spare, ?_⟩
        have hlength : (l.map some).length = l.length := List.length_map some
        rw [hspare, List.set_append_right _ _ (Nat.le_of_eq hlength), hlength, Nat.sub_self,
          List.set_cons_zero, List.map_append, List.append_assoc]
        rfl
  · exact List.length_set

/-- `b[i] = b[count - 1]` and one entry less in use. -/
theorem Holds.swapRemove (h : b.Holds l) (hi : i < l.length) :
    ∃ last b', b.read l.length (l.length - 1) = some last ∧
      b.write l.length i last = some b' ∧ b'.Holds (SwapRemove.swapRemove l i) ∧
        b'.size = b.size := by
  have hne : l ≠ [] := List.ne_nil_of_length_pos (Nat.zero_lt_of_lt hi)
  have hlast : l[l.length - 1]? = some (l.getLast hne) := by
    rw [← List.getLast?_eq_getElem?, List.getLast?_eq_some_getLast hne]
  obtain ⟨b', hwrite, hholds, hsize⟩ := h.write hi hi (l.getLast hne)
  refine ⟨l.getLast hne, b', h.read hlast (by omega), hwrite, ?_, hsize⟩
  have hremoved : SwapRemove.swapRemove l i = (l.set i (l.getLast hne)).dropLast := by
    rw [SwapRemove.swapRemove, List.getLast?_eq_some_getLast hne]
  have hne' : l.set i (l.getLast hne) ≠ [] := by simpa using hne
  rw [← List.dropLast_append_getLast hne'] at hholds
  rw [hremoved]
  exact hholds.of_append

theorem size_resize (b : Block α) (size : Nat) : (b.resize size).size = size := by
  show (b.entries.take size ++ List.replicate (size - b.size) none).length = size
  rw [List.length_append, List.length_take, List.length_replicate]
  show min size b.size + (size - b.size) = size
  omega

theorem Holds.resize (h : b.Holds l) {size : Nat} (hsize : l.length ≤ size) :
    (b.resize size).Holds l := by
  obtain ⟨spare, hspare⟩ := h
  refine ⟨spare.take (size - l.length) ++ List.replicate (size - b.size) none, ?_⟩
  show b.entries.take size ++ _ = _
  have hmap : (l.map some).take size = l.map some :=
    List.take_of_length_le (by rwa [List.length_map])
  rw [hspare, List.take_append, hmap, List.length_map, List.append_assoc]

theorem Holds.first (h : b.Holds l) : b.first l.length = some l := by
  have hsize := h.length_le
  obtain ⟨spare, hspare⟩ := h
  have htake : (l.map some ++ spare).take l.length = l.map some := by
    have hlength : (l.map some).length = l.length := List.length_map some
    rw [← hlength, List.take_left]
  rw [Block.first, if_pos hsize, hspare, htake]
  clear hspare htake hsize
  induction l with
  | nil => rfl
  | cons x l ih => simp only [List.map_cons, List.mapM_cons, id, ih]; rfl

theorem overwrite_holds (b : Block α) (l : List α) : (b.overwrite l).Holds l := ⟨_, rfl⟩

theorem size_overwrite (h : l.length ≤ b.size) : (b.overwrite l).size = b.size := by
  show (l.map some ++ b.entries.drop l.length).length = b.size
  rw [List.length_append, List.length_map, List.length_drop]
  exact Nat.add_sub_cancel' h

end Block
