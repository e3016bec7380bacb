import Mathlib.Algebra.BigOperators.Fin
import Mathlib.Algebra.BigOperators.Intervals
import Mathlib.Algebra.Order.BigOperators.Group.Finset
import Mathlib.Tactic.Common

/-!
# Counting under point updates

Census of a finite range of cells: `tally n p` counts the indices below `n` with `p`,
`grid m n f` adds `f` over an `m` by `n` grid. Each lemma says what one changed cell
does to the total.
-/

namespace Census
set_option autoImplicit false
open Finset

def tally (n : Nat) (p : Nat → Bool) : Nat := ((range n).filter (fun i => p i)).card

def grid (m n : Nat) (f : Nat → Nat → Nat) : Nat := ∑ i ∈ range m, ∑ j ∈ range n, f i j

theorem tally_eq_sum (n : Nat) (p : Nat → Bool) :
    tally n p = ∑ i ∈ range n, if p i then 1 else 0 := by
  rw [tally, card_filter]

theorem tally_congr {n : Nat} {p q : Nat → Bool} (h : ∀ i < n, p i = q i) :
    tally n p = tally n q := by
  rw [tally_eq_sum, tally_eq_sum]
  apply sum_congr rfl
  intro i hi
  rw [h i (mem_range.mp hi)]

/-- Replacing one term of a sum exchanges the two values in the total. -/
theorem sum_swap {n k : Nat} {f g : Nat → Nat} (hk : k < n) (h : ∀ i < n, i ≠ k → f i = g i) :
    (∑ i ∈ range n, f i) + g k = (∑ i ∈ range n, g i) + f k := by
  have hmem : k ∈ range n := mem_range.mpr hk
  have hrest : ∑ i ∈ (range n).erase k, f i = ∑ i ∈ (range n).erase k, g i := by
    apply sum_congr rfl
    intro i hi
    exact h i (mem_range.mp (mem_of_mem_erase hi)) (ne_of_mem_erase hi)
  rw [← add_sum_erase _ f hmem, ← add_sum_erase _ g hmem, hrest]
  omega

/-- A sum over a range changes by the difference at the one index where the terms differ. -/
theorem sum_point {n k a : Nat} {f g : Nat → Nat} (hk : k < n) (hka : f k = g k + a)
    (h : ∀ i < n, i ≠ k → f i = g i) : ∑ i ∈ range n, f i = (∑ i ∈ range n, g i) + a := by
  have hs := sum_swap hk h
  omega

theorem tally_point {n k : Nat} {p q : Nat → Bool} (hk : k < n) (hp : p k = true)
    (hq : q k = false) (h : ∀ i < n, i ≠ k → p i = q i) : tally n p = tally n q + 1 := by
  rw [tally_eq_sum, tally_eq_sum]
  apply sum_point hk
  · simp [hp, hq]
  · intro i hi hne
    rw [h i hi hne]

theorem tally_succ (n : Nat) (p : Nat → Bool) :
    tally (n+1) p = tally n p + if p n then 1 else 0 := by
  rw [tally_eq_sum, tally_eq_sum, sum_range_succ]

theorem countP_range (n : Nat) (p : Nat → Bool) : (List.range n).countP p = tally n p := by
  induction n with
  | zero => rfl
  | succ n ih =>
    rw [List.range_succ, List.countP_append, ih, tally_succ, List.countP_singleton]

theorem tally_le (n : Nat) (p : Nat → Bool) : tally n p ≤ n := by
  calc tally n p ≤ (range n).card := card_filter_le _ _
    _ = n := card_range n

theorem tally_lt {n k : Nat} {p : Nat → Bool} (hk : k < n) (hp : p k = false) : tally n p < n := by
  have hmem : k ∈ range n := mem_range.mpr hk
  calc tally n p < (range n).card := card_lt_card (filter_ssubset.mpr ⟨k, hmem, by simp [hp]⟩)
    _ = n := card_range n

theorem tally_pos {n k : Nat} {p : Nat → Bool} (hk : k < n) (hp : p k = true) : 0 < tally n p :=
  card_pos.mpr ⟨k, mem_filter.mpr ⟨mem_range.mpr hk, hp⟩⟩

theorem tally_eq_zero {n : Nat} {p : Nat → Bool} : tally n p = 0 ↔ ∀ i < n, p i = false := by
  rw [tally, card_eq_zero, filter_eq_empty_iff]
  constructor
  · intro h i hi
    simpa using h (mem_range.mpr hi)
  · intro h i hi
    simp [h i (mem_range.mp hi)]

/-- Three exclusive and exhaustive conditions split the range. -/
theorem tally_three {n : Nat} {p q r : Nat → Bool}
    (h : ∀ i < n, (if p i then 1 else 0) + (if q i then 1 else 0) + (if r i then 1 else 0) = 1) :
    tally n p + tally n q + tally n r = n := by
  rw [tally_eq_sum, tally_eq_sum, tally_eq_sum, ← sum_add_distrib, ← sum_add_distrib]
  rw [sum_congr rfl (fun i hi => h i (mem_range.mp hi))]
  simp

theorem grid_congr {m n : Nat} {f g : Nat → Nat → Nat} (h : ∀ i < m, ∀ j < n, f i j = g i j) :
    grid m n f = grid m n g := by
  apply sum_congr rfl
  intro i hi
  apply sum_congr rfl
  intro j hj
  exact h i (mem_range.mp hi) j (mem_range.mp hj)

/-- Replacing one cell of a grid exchanges the two values in the total. -/
theorem grid_swap {m n i j : Nat} {f g : Nat → Nat → Nat} (hi : i < m) (hj : j < n)
    (h : ∀ i' < m, ∀ j' < n, ¬ (i' = i ∧ j' = j) → f i' j' = g i' j') :
    grid m n f + g i j = grid m n g + f i j := by
  have hrow := sum_swap hj (fun j' hj' hne => h i hi j' hj' (fun hc => hne hc.2))
  have hrows := sum_swap (f := fun i' => ∑ j' ∈ range n, f i' j')
    (g := fun i' => ∑ j' ∈ range n, g i' j') hi (by
      intro i' hi' hne
      apply sum_congr rfl
      intro j' hj'
      exact h i' hi' j' (mem_range.mp hj') (fun hc => hne hc.1))
  unfold grid
  omega

theorem grid_add (m n : Nat) (f g : Nat → Nat → Nat) :
    grid m n (fun i j => f i j + g i j) = grid m n f + grid m n g := by
  simp only [grid, sum_add_distrib]

theorem grid_const (m n a : Nat) : grid m n (fun _ _ => a) = m * n * a := by
  simp [grid, Nat.mul_assoc]

theorem grid_pos {m n i j : Nat} {f : Nat → Nat → Nat} (hi : i < m) (hj : j < n)
    (h : 0 < f i j) : 0 < grid m n f := by
  have hrow : f i j ≤ ∑ j' ∈ range n, f i j' :=
    single_le_sum (fun _ _ => Nat.zero_le _) (mem_range.mpr hj)
  have hall : ∑ j' ∈ range n, f i j' ≤ grid m n f :=
    single_le_sum (f := fun i' => ∑ j' ∈ range n, f i' j') (fun _ _ => Nat.zero_le _)
      (mem_range.mpr hi)
  omega

end Census
