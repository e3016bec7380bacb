import Mathlib.Algebra.Order.Ring.Nat
import Mathlib.Tactic.Ring
import Mathlib.Tactic.Common

/-!
# Little-endian numbers in a memory

A number is kept in consecutive bytes, the lowest digit first.
-/

namespace LittleEndian
set_option autoImplicit false

/-- Byte `i` of a number. -/
def digit (v i : Nat) : UInt8 := UInt8.ofNat (v / 256^i)

/-- The number in the `w` bytes from address `a` on. -/
def value (mem : Nat → UInt8) (w a : Nat) : Nat :=
  (List.range w).foldr (fun i v => (mem (a + i)).toNat + 256 * v) 0

variable {mem : Nat → UInt8} {v w a : Nat}

theorem digit_succ (v i : Nat) : digit v (i + 1) = digit (v / 256) i := by
  rw [digit, digit, Nat.div_div_eq_div_mul, Nat.pow_succ, Nat.mul_comm]

theorem digit_toNat (v i : Nat) : (digit v i).toNat = v / 256^i % 256 := UInt8.toNat_ofNat'

theorem value_succ (mem : Nat → UInt8) (w a : Nat) :
    value mem (w + 1) a = (mem a).toNat + 256 * value mem w (a + 1) := by
  have hshift : ∀ i, mem (a + (i + 1)) = mem (a + 1 + i) := fun i => by
    rw [Nat.add_assoc a 1 i, Nat.add_comm 1 i]
  rw [value, List.range_succ_eq_map, List.foldr_cons, List.foldr_map, Nat.add_zero]
  simp only [hshift]
  rfl

theorem value_congr {mem' : Nat → UInt8} (h : ∀ i, a ≤ i → i < a + w → mem' i = mem i) :
    value mem' w a = value mem w a := by
  induction w generalizing a with
  | zero => rfl
  | succ w ih =>
    rw [value_succ, value_succ, h a (Nat.le_refl a) (by omega),
      ih (fun i h₁ h₂ => h i (by omega) (by omega))]

theorem value_digits (h : ∀ i < w, mem (a + i) = digit v i) : value mem w a = v % 256^w := by
  induction w generalizing v a with
  | zero =>
    rw [Nat.pow_zero, Nat.mod_one]
    rfl
  | succ w ih =>
    have hfirst : mem a = digit v 0 := h 0 (Nat.succ_pos w)
    have hrest : value mem w (a + 1) = v / 256 % 256^w := by
      apply ih
      intro i hi
      rw [Nat.add_assoc, Nat.add_comm 1 i, h (i + 1) (Nat.succ_lt_succ hi), digit_succ]
    rw [value_succ, hfirst, hrest, digit_toNat, Nat.pow_zero, Nat.div_one, Nat.pow_succ, Nat.mul_comm (256^w),
      Nat.mod_mul]

end LittleEndian
