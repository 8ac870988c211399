import Mathlib.Data.List.Basic
import Mathlib.Data.Nat.Digits.Defs

/-! Text assembled from fields with a separator between them, and the numerals that stand in
such fields. A field that cannot contain the separator is recovered from the end of the
text on which it stands; one field of the text may be arbitrary. -/
namespace Delimited

section Separator

variable {α : Type*} {sep : α} {first first' last last' : List α}

/-- The text up to the first separator and the rest. -/
theorem split_first (h : sep ∉ first) (h' : sep ∉ first') :
    first ++ sep :: last = first' ++ sep :: last' ↔ first = first' ∧ last = last' := by
  constructor
  · intro heq
    induction first generalizing first' with
    | nil =>
        cases first' with
        | nil => exact ⟨rfl, (List.cons.inj heq).2⟩
        | cons a rest => exact absurd (List.cons.inj heq).1 (List.ne_of_not_mem_cons h')
    | cons a first ih =>
        cases first' with
        | nil => exact absurd (List.cons.inj heq).1.symm (List.ne_of_not_mem_cons h)
        | cons a' first' =>
            obtain ⟨rfl, hrest⟩ := List.cons.inj heq
            obtain ⟨rfl, hlast⟩ :=
              ih (List.not_mem_of_not_mem_cons h) (List.not_mem_of_not_mem_cons h') hrest
            exact ⟨rfl, hlast⟩
  · rintro ⟨rfl, rfl⟩
    rfl

/-- The text up to the last separator and the rest. -/
theorem split_last (h : sep ∉ last) (h' : sep ∉ last') :
    first ++ sep :: last = first' ++ sep :: last' ↔ first = first' ∧ last = last' := by
  rw [← List.reverse_inj]
  simp only [List.reverse_append, List.reverse_cons, List.append_assoc, List.singleton_append]
  rw [split_first (by rwa [List.mem_reverse]) (by rwa [List.mem_reverse]), List.reverse_inj,
    List.reverse_inj]
  exact And.comm

end Separator

/-! ### Numerals -/

/-- The character of a digit, in the order `0-9a-f`. -/
def digit (d : Nat) : UInt8 := if d < 10 then .ofNat (48 + d) else .ofNat (87 + d)

/-- `printf` without flags, width or precision: `%u` for base 10, `%x` for base 16. -/
def numeral (base n : Nat) : List UInt8 :=
  ((if n = 0 then [0] else (Nat.digits base n)).reverse).map digit

def value (c : UInt8) : Nat := if c < 58 then c.toNat - 48 else c.toNat - 87

theorem value_digit {d : Nat} (h : d < 16) : value (digit d) = d := by
  have hall : ∀ d < 16, value (digit d) = d := by decide
  exact hall d h

theorem digit_ne {d : Nat} (h : d < 16) : digit d ≠ 0 ∧ digit d ≠ 124 := by
  have hall : ∀ d < 16, digit d ≠ 0 ∧ digit d ≠ 124 := by decide
  exact hall d h

theorem digits_lt {base n d : Nat} (hbase : 1 < base)
    (hd : d ∈ (if n = 0 then [0] else (Nat.digits base n)).reverse) : d < base := by
  rw [List.mem_reverse] at hd
  split at hd
  · rw [List.mem_singleton.mp hd]
    exact Nat.zero_lt_of_lt hbase
  · exact Nat.digits_lt_base hbase hd

theorem numeral_injective {base m n : Nat} (hbase : 1 < base) (hle : base ≤ 16)
    (h : numeral base m = numeral base n) : m = n := by
  have hdecode : ∀ k, (numeral base k).map value =
      (if k = 0 then [0] else (Nat.digits base k)).reverse := by
    intro k
    rw [numeral, List.map_map]
    conv_rhs => rw [← List.map_id (List.reverse _)]
    refine List.map_congr_left fun d hd => ?_
    exact value_digit (Nat.lt_of_lt_of_le (digits_lt hbase hd) hle)
  have hvalue : ∀ k, Nat.ofDigits base ((numeral base k).map value).reverse = k := by
    intro k
    rw [hdecode, List.reverse_reverse]
    split
    · next hk => rw [hk, Nat.ofDigits_singleton]
    · exact Nat.ofDigits_digits base k
  rw [← hvalue m, h, hvalue n]

theorem mem_numeral {base n : Nat} (hbase : 1 < base) (hle : base ≤ 16) {c : UInt8}
    (hc : c ∈ numeral base n) : c ≠ 0 ∧ c ≠ 124 := by
  obtain ⟨d, hd, rfl⟩ := List.mem_map.mp hc
  exact digit_ne (Nat.lt_of_lt_of_le (digits_lt hbase hd) hle)

end Delimited
