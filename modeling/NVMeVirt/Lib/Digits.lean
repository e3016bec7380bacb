import Mathlib.Algebra.Order.Ring.Nat
import Mathlib.Tactic.Ring
import Mathlib.Tactic.Common

/-!
# Two-digit numerals

`a * n + b` with `b < n` reads the pair `(a, b)` as a number with low digit `b`.
Longer addresses are nested pairs.
-/

namespace Digits
set_option autoImplicit false

variable {a a' b b' m n : Nat}

theorem pair_lt (ha : a < m) (hb : b < n) : a * n + b < m * n := by
  calc a * n + b < a * n + n := by omega
    _ = (a + 1) * n := by ring
    _ ≤ m * n := Nat.mul_le_mul_right n ha

theorem pair_inj (hb : b < n) (hb' : b' < n) (h : a * n + b = a' * n + b') : a = a' ∧ b = b' := by
  have ha : a = a' := by
    have hdiv : (a * n + b) / n = (a' * n + b') / n := by rw [h]
    rwa [Nat.mul_comm a, Nat.mul_comm a', Nat.mul_add_div (by omega), Nat.mul_add_div (by omega),
      Nat.div_eq_of_lt hb, Nat.div_eq_of_lt hb', Nat.add_zero, Nat.add_zero] at hdiv
  subst ha
  exact ⟨rfl, by omega⟩

/-- A larger high digit makes a larger number, whatever the low digits. -/
theorem pair_lt_of_lt (hb : b < n) (h : a < a') : a * n + b < a' * n + b' :=
  Nat.lt_of_lt_of_le (pair_lt h hb) (Nat.le_add_right _ _)

/-- Every number below `m * n` has two digits. -/
theorem exists_pair {i : Nat} (h : i < m * n) : ∃ a b, a < m ∧ b < n ∧ i = a * n + b := by
  have hn : 0 < n := Nat.pos_of_mul_pos_left (Nat.zero_lt_of_lt h)
  exact ⟨i / n, i % n, Nat.div_lt_of_lt_mul (Nat.mul_comm m n ▸ h), Nat.mod_lt i hn,
    (Nat.div_add_mod' i n).symm⟩

end Digits
