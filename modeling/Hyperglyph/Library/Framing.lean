import Mathlib.Data.List.Basic
import Hyperglyph.Library.Octets

/-! Fields of arbitrary octets, each behind its own length. Since the length tells where a field
ends, a sequence of them is decoded in one way only. -/
namespace Framing

open Octets

variable {width : Nat} {octets octets' rest rest' : List UInt8} {fields fields' : List (List UInt8)}

/-- The length in `width` octets, then the field. -/
def frame (width : Nat) (octets : List UInt8) : List UInt8 := ofNat width octets.length ++ octets

def frames (width : Nat) (fields : List (List UInt8)) : List UInt8 := fields.flatMap (frame width)

@[simp] theorem frames_nil : frames width [] = [] := rfl

@[simp] theorem frames_cons :
    frames width (octets :: fields) = frame width octets ++ frames width fields :=
  List.flatMap_cons

theorem ofNat_injective {m n : Nat} (hm : m < 256 ^ width) (hn : n < 256 ^ width)
    (h : ofNat width m = ofNat width n) : m = n := by
  rw [← toNat_ofNat_of_lt hm, h, toNat_ofNat_of_lt hn]

/-- The first frame of a text is determined by it, and so is the rest. -/
theorem frame_append (h : octets.length < 256 ^ width) (h' : octets'.length < 256 ^ width) :
    frame width octets ++ rest = frame width octets' ++ rest' ↔ octets = octets' ∧ rest = rest' := by
  constructor
  · intro heq
    unfold frame at heq
    rw [List.append_assoc, List.append_assoc] at heq
    have hwidth : (ofNat width octets.length).length = (ofNat width octets'.length).length := by
      rw [length_ofNat, length_ofNat]
    obtain ⟨hlength, htail⟩ := List.append_inj heq hwidth
    exact List.append_inj htail (ofNat_injective h h' hlength)
  · rintro ⟨rfl, rfl⟩
    rfl

theorem frame_ne_nil (hwidth : 0 < width) : frame width octets ≠ [] := by
  intro hnil
  have hlength := congrArg List.length hnil
  rw [frame, List.length_append, length_ofNat, List.length_nil] at hlength
  omega

/-- Equal texts are made of the same fields. -/
theorem frames_injective (hwidth : 0 < width) (h : ∀ octets ∈ fields, octets.length < 256 ^ width)
    (h' : ∀ octets ∈ fields', octets.length < 256 ^ width)
    (heq : frames width fields = frames width fields') : fields = fields' := by
  induction fields generalizing fields' with
  | nil =>
      cases fields' with
      | nil => rfl
      | cons octets' fields' =>
          rw [frames_nil, frames_cons] at heq
          exact absurd (List.append_eq_nil_iff.mp heq.symm).1 (frame_ne_nil hwidth)
  | cons octets fields ih =>
      cases fields' with
      | nil =>
          rw [frames_nil, frames_cons] at heq
          exact absurd (List.append_eq_nil_iff.mp heq).1 (frame_ne_nil hwidth)
      | cons octets' fields' =>
          rw [frames_cons, frames_cons, frame_append (h octets List.mem_cons_self)
            (h' octets' List.mem_cons_self)] at heq
          obtain ⟨rfl, htail⟩ := heq
          rw [ih (fun o ho => h o (List.mem_cons_of_mem _ ho))
            (fun o ho => h' o (List.mem_cons_of_mem _ ho)) htail]

end Framing
