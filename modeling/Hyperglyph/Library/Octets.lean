import Mathlib.Data.List.TakeWhile
import Mathlib.Tactic.Ring

/-! Octet strings as C programs read and write them: little-endian integers at fixed
offsets, and NUL-terminated strings held in fixed-size buffers. -/
namespace Octets

/-! ### Little-endian integers -/

/-- The low `width` octets of `n`, least significant first. -/
def ofNat : Nat → Nat → List UInt8
  | 0, _ => []
  | width + 1, n => UInt8.ofNat n :: ofNat width (n / 256)

def toNat : List UInt8 → Nat
  | [] => 0
  | b :: rest => b.toNat + 256 * toNat rest

@[simp] theorem length_ofNat (width n : Nat) : (ofNat width n).length = width := by
  induction width generalizing n with
  | zero => rfl
  | succ width ih => simp only [ofNat, List.length_cons, ih]

theorem toNat_ofNat (width n : Nat) : toNat (ofNat width n) = n % 256 ^ width := by
  induction width generalizing n with
  | zero => simp only [ofNat, toNat, Nat.pow_zero, Nat.mod_one]
  | succ width ih =>
      calc toNat (ofNat (width + 1) n)
          _ = n % 256 + 256 * (n / 256 % 256 ^ width) := by
              rw [ofNat, toNat, ih, UInt8.toNat_ofNat']
          _ = n % 256 ^ (width + 1) := by rw [Nat.pow_succ', Nat.mod_mul]

theorem toNat_ofNat_of_lt {width n : Nat} (h : n < 256 ^ width) :
    toNat (ofNat width n) = n := by
  rw [toNat_ofNat, Nat.mod_eq_of_lt h]

theorem toNat_lt (octets : List UInt8) : toNat octets < 256 ^ octets.length := by
  induction octets with
  | nil => simp [toNat]
  | cons b rest ih =>
      have hb := b.toNat_lt
      rw [toNat, List.length_cons, Nat.pow_succ]
      omega

theorem ofNat_toNat (octets : List UInt8) : ofNat octets.length (toNat octets) = octets := by
  induction octets with
  | nil => rfl
  | cons b rest ih =>
      have hb : b.toNat < 256 := b.toNat_lt
      have hlow : UInt8.ofNat (b.toNat + 256 * toNat rest) = b := by
        apply UInt8.toNat_inj.mp
        rw [UInt8.toNat_ofNat', Nat.add_mul_mod_self_left, Nat.mod_eq_of_lt hb]
      have hhigh : (b.toNat + 256 * toNat rest) / 256 = toNat rest := by omega
      rw [List.length_cons, toNat, ofNat, hlow, hhigh, ih]

/-- Octets `offset, ..., offset + width - 1` of a buffer. -/
def field (buffer : List UInt8) (offset width : Nat) : List UInt8 :=
  (buffer.drop offset).take width

theorem length_field {buffer : List UInt8} {offset width : Nat}
    (h : offset + width ≤ buffer.length) : (field buffer offset width).length = width := by
  rw [field, List.length_take, List.length_drop]
  omega

/-- Consecutive fields are the buffer from the first on. -/
theorem field_append_drop (buffer : List UInt8) (offset width : Nat) :
    field buffer offset width ++ buffer.drop (offset + width) = buffer.drop offset := by
  rw [field, ← List.drop_drop, List.take_append_drop]

/-! ### NUL-terminated strings -/

/-- `memchr(buffer, 0, sizeof(buffer))`. -/
def terminated (buffer : List UInt8) : Bool := buffer.contains 0

/-- The characters before the first NUL. -/
def cString (buffer : List UInt8) : List UInt8 := buffer.takeWhile (· ≠ 0)

/-- `strcmp(left, right) == 0`. -/
def strcmpEq (left right : List UInt8) : Bool := cString left == cString right

/-- The sign of `strcmp(left, right)`: characters compare as `unsigned char`. -/
def strcmp (left right : List UInt8) : Ordering := compare (cString left) (cString right)

/-- The place of the last `b`, for the characters of a string. -/
def strrchr (b : UInt8) : List UInt8 → Option Nat
  | [] => none
  | a :: rest =>
      match strrchr b rest with
      | some n => some (n + 1)
      | none => if a = b then some 0 else none

theorem strrchr_eq_none {b : UInt8} {text : List UInt8} : strrchr b text = none ↔ b ∉ text := by
  induction text with
  | nil => simp [strrchr]
  | cons a rest ih =>
      rw [strrchr, List.mem_cons, not_or, ← ih]
      cases strrchr b rest with
      | some n => simp
      | none => simp [eq_comm]

theorem strrchr_append {b : UInt8} {last : List UInt8} (first : List UInt8) (h : b ∉ last) :
    strrchr b (first ++ b :: last) = some first.length := by
  induction first with
  | nil => simp only [List.nil_append, strrchr, strrchr_eq_none.mpr h, if_true, List.length_nil]
  | cons a first ih => simp only [List.cons_append, strrchr, ih, List.length_cons]

theorem cString_append_zero {text rest : List UInt8} (h : (0 : UInt8) ∉ text) :
    cString (text ++ 0 :: rest) = text := by
  unfold cString
  rw [List.takeWhile_append_of_pos]
  · simp
  · intro b hb
    have hne : b ≠ 0 := fun h0 => h (h0 ▸ hb)
    simpa using hne

@[simp] theorem strcmpEq_iff {left right : List UInt8} :
    strcmpEq left right = true ↔ cString left = cString right := by
  simp [strcmpEq]

@[simp] theorem strcmpEq_self (buffer : List UInt8) : strcmpEq buffer buffer = true := by
  simp

theorem strcmp_eq_iff {left right : List UInt8} :
    strcmp left right = .eq ↔ strcmpEq left right = true := by
  rw [strcmpEq_iff]
  exact Std.LawfulEqOrd.compare_eq_iff_eq

end Octets
