import Mathlib.Data.List.Induction
import Mathlib.Data.List.TakeWhile
import Mathlib.Data.Nat.Digits.Defs

/-! `strtoul` in base 10, with `errno` cleared before the call, and the texts it converts to their
end. The largest `unsigned long` is a parameter. -/
namespace Strtoul

/-- `isspace` of the C locale. -/
def isSpace (b : UInt8) : Bool := b == 32 || (9 ≤ b && b ≤ 13)
def isDigit (b : UInt8) : Bool := 48 ≤ b && b ≤ 57

/-- The number a decimal text stands for. -/
def decimal (text : List UInt8) : Nat :=
  Nat.ofDigits 10 (text.map fun b => b.toNat - 48).reverse

inductive Sign
  | none | plus | minus
  deriving DecidableEq

def Sign.text : Sign → List UInt8
  | .none => []
  | .plus => [43]
  | .minus => [45]

/-- Negation is that of the unsigned type. -/
def Sign.apply (max : Nat) : Sign → Nat → Nat
  | .minus, magnitude => (max + 1 - magnitude) % (max + 1)
  | _, magnitude => magnitude

structure Conversion where
  value : Nat
  /-- The text at `*endptr`. -/
  rest : List UInt8
  /-- `errno` is `ERANGE`. -/
  outOfRange : Bool
  deriving DecidableEq

def splitSign : List UInt8 → Sign × List UInt8
  | [] => (.none, [])
  | b :: rest =>
      if b = 45 then (.minus, rest) else if b = 43 then (.plus, rest) else (.none, b :: rest)

def accumulate (digits : List UInt8) : Nat :=
  digits.foldl (fun value b => value * 10 + (b.toNat - 48)) 0

def strtoul (max : Nat) (text : List UInt8) : Conversion :=
  let (sign, subject) := splitSign (text.dropWhile isSpace)
  let digits := subject.takeWhile isDigit
  if digits = [] then ⟨0, text, false⟩
  else
    let rest := subject.dropWhile isDigit
    if accumulate digits > max then ⟨max, rest, true⟩
    else ⟨sign.apply max (accumulate digits), rest, false⟩

/-- White space, a sign or none, and digits. -/
structure Spelled (text blanks : List UInt8) (sign : Sign) (digits : List UInt8) : Prop where
  text_eq : text = blanks ++ (sign.text ++ digits)
  blanks_space : ∀ b ∈ blanks, isSpace b = true
  digits_ne : digits ≠ []
  digits_digit : ∀ b ∈ digits, isDigit b = true

variable {max : Nat} {text blanks digits : List UInt8} {sign : Sign}

theorem accumulate_eq_decimal (digits : List UInt8) : accumulate digits = decimal digits := by
  unfold accumulate decimal
  induction digits using List.reverseRecOn with
  | nil => rfl
  | append_singleton digits b ih =>
      rw [List.foldl_append, List.map_append, List.reverse_append]
      simp only [List.foldl_cons, List.foldl_nil, List.map_cons, List.map_nil, List.reverse_singleton,
        List.singleton_append, Nat.ofDigits_cons]
      rw [ih]
      omega

/-- What `splitSign` took off can be put back. -/
theorem splitSign_text (subject : List UInt8) :
    (splitSign subject).1.text ++ (splitSign subject).2 = subject := by
  cases subject with
  | nil => rfl
  | cons b rest =>
      simp only [splitSign]
      split
      · next hminus =>
          rw [hminus]
          rfl
      · split
        · next hplus =>
            rw [hplus]
            rfl
        · rfl

theorem isDigit_not_sign {b : UInt8} (h : isDigit b = true) :
    b ≠ 45 ∧ b ≠ 43 ∧ isSpace b = false := by
  simp only [isDigit, Bool.and_eq_true, decide_eq_true_eq, UInt8.le_iff_toNat_le] at h
  have hnumber : b.toNat ≠ 45 ∧ b.toNat ≠ 43 ∧ b.toNat ≠ 32 ∧ ¬ b.toNat ≤ 13 := by
    have hlow : (48 : UInt8).toNat = 48 := rfl
    omega
  refine ⟨?_, ?_, ?_⟩
  · rintro rfl
    exact hnumber.1 rfl
  · rintro rfl
    exact hnumber.2.1 rfl
  · rw [isSpace, Bool.or_eq_false_iff, Bool.and_eq_false_iff]
    refine ⟨?_, .inr ?_⟩
    · rw [beq_eq_false_iff_ne]
      rintro rfl
      exact hnumber.2.2.1 rfl
    · rw [decide_eq_false_iff_not, UInt8.le_iff_toNat_le]
      exact hnumber.2.2.2

namespace Spelled

/-- The text begins again where the white space ends. -/
theorem dropWhile_space (h : Spelled text blanks sign digits) :
    text.dropWhile isSpace = sign.text ++ digits := by
  rw [h.text_eq, List.dropWhile_append_of_pos h.blanks_space]
  obtain ⟨b, rest, hrest⟩ := List.exists_cons_of_ne_nil h.digits_ne
  cases sign with
  | plus | minus => rfl
  | none =>
      have hspace := (isDigit_not_sign (h.digits_digit b (by rw [hrest]; exact List.mem_cons_self))).2.2
      rw [Sign.text, List.nil_append, hrest, List.dropWhile_cons, hspace]
      rfl

theorem splitSign_eq (h : Spelled text blanks sign digits) :
    splitSign (sign.text ++ digits) = (sign, digits) := by
  obtain ⟨b, rest, hrest⟩ := List.exists_cons_of_ne_nil h.digits_ne
  cases sign with
  | plus | minus => rfl
  | none =>
      obtain ⟨hminus, hplus, -⟩ :=
        isDigit_not_sign (h.digits_digit b (by rw [hrest]; exact List.mem_cons_self))
      rw [Sign.text, List.nil_append, hrest, splitSign, if_neg hminus, if_neg hplus]

theorem strtoul_eq (h : Spelled text blanks sign digits) : strtoul max text =
    if decimal digits > max then ⟨max, [], true⟩
    else ⟨sign.apply max (decimal digits), [], false⟩ := by
  have htake : digits.takeWhile isDigit = digits := List.takeWhile_eq_self_iff.mpr h.digits_digit
  have hdrop : digits.dropWhile isDigit = [] := List.dropWhile_eq_nil_iff.mpr h.digits_digit
  unfold strtoul
  rw [h.dropWhile_space, h.splitSign_eq]
  dsimp only
  rw [htake, hdrop, if_neg h.digits_ne, accumulate_eq_decimal]

end Spelled

/-- A conversion that reaches the end of the text and is not zero had this form to read. -/
theorem exists_spelled (hrest : (strtoul max text).rest = [])
    (hvalue : (strtoul max text).value ≠ 0) : ∃ blanks sign digits, Spelled text blanks sign digits := by
  unfold strtoul at hrest hvalue
  generalize hsplit : splitSign (text.dropWhile isSpace) = split at hrest hvalue
  obtain ⟨sign, subject⟩ := split
  dsimp only at hrest hvalue
  by_cases hnone : subject.takeWhile isDigit = []
  · rw [if_pos hnone] at hvalue
    exact absurd rfl hvalue
  · rw [if_neg hnone] at hrest
    have hend : subject.dropWhile isDigit = [] := by
      split at hrest <;> exact hrest
    have hdigits : subject.takeWhile isDigit = subject := by
      have happend := List.takeWhile_append_dropWhile (p := isDigit) (l := subject)
      rwa [hend, List.append_nil] at happend
    refine ⟨text.takeWhile isSpace, sign, subject, ?_, fun b hb => List.mem_takeWhile_imp hb, ?_, ?_⟩
    · have hback := splitSign_text (text.dropWhile isSpace)
      rw [hsplit] at hback
      rw [hback, List.takeWhile_append_dropWhile]
    · rwa [hdigits] at hnone
    · exact List.takeWhile_eq_self_iff.mp hdigits

end Strtoul
