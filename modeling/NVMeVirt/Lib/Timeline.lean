import Mathlib.Algebra.BigOperators.Intervals
import Mathlib.Algebra.Order.BigOperators.Group.Finset
import Mathlib.Tactic.Common

/-!
# Timelines

An unbounded row of intervals, each with room for `cap` units; `used k` units of interval `k`
are taken. `charge` takes units interval by interval, and `Greedy` says what that comes to:
inside a window nothing is taken from an interval while an earlier one has room.
-/

namespace Timeline
set_option autoImplicit false

/-- What interval `k` can give of `n` units. -/
def taken (cap k n : Nat) (used : Nat → Nat) : Nat := min n (cap - used k)

/-- The timeline once interval `k` has given it. -/
def settle (cap k n : Nat) (used : Nat → Nat) : Nat → Nat :=
  Function.update used k (used k + taken cap k n used)

/-- `n` units from the `m` intervals that start with `k`. -/
def charge (cap : Nat) : Nat → Nat → Nat → (Nat → Nat) → Nat → Nat
  | 0, _, _, used => used
  | m + 1, k, n, used => charge cap m (k + 1) (n - taken cap k n used) (settle cap k n used)

/-- What taking `n` units of the window from `start` to `stop` greedily does. -/
structure Greedy (cap start stop n : Nat) (used used' : Nat → Nat) : Prop where
  outside : ∀ k, k < start ∨ stop ≤ k → used' k = used k
  more : ∀ k, used k ≤ used' k
  earliest : ∀ k j, start ≤ k → k < j → used' j ≠ used j → used' k = cap
  total : ∑ k ∈ Finset.Ico start stop, (used' k - used k) =
    min n (∑ k ∈ Finset.Ico start stop, (cap - used k))

variable {cap m k n : Nat} {used : Nat → Nat}

theorem settle_self : settle cap k n used k = used k + taken cap k n used := Function.update_self _ _ _

theorem settle_ne {i : Nat} (h : i ≠ k) : settle cap k n used i = used i := Function.update_of_ne h _ _

theorem settle_le (h : ∀ i, used i ≤ cap) (i : Nat) : settle cap k n used i ≤ cap := by
  by_cases hi : i = k
  · subst hi
    rw [settle_self, taken]
    have := h i
    omega
  · rw [settle_ne hi]
    exact h i

/-- An interval that is not full has given all that was asked for. -/
theorem taken_eq (h : settle cap k n used k < cap) : taken cap k n used = n := by
  rw [settle_self] at h
  unfold taken at h ⊢
  omega

theorem charge_succ : charge cap (m + 1) k n used =
    charge cap m (k + 1) (n - taken cap k n used) (settle cap k n used) := rfl

theorem charge_none : charge cap m k 0 used = used := by
  induction m generalizing k used with
  | zero => rfl
  | succ m ih =>
    have hzero : taken cap k 0 used = 0 := Nat.zero_min _
    have hsame : settle cap k 0 used = used := by
      rw [settle, hzero]
      exact Function.update_eq_self k used
    rw [charge_succ, hzero, hsame]
    exact ih

theorem charge_outside {i : Nat} (h : i < k ∨ k + m ≤ i) : charge cap m k n used i = used i := by
  induction m generalizing k n used with
  | zero => rfl
  | succ m ih => rw [charge_succ, ih (by omega), settle_ne (by omega)]

theorem charge_le (h : ∀ i, used i ≤ cap) (i : Nat) : charge cap m k n used i ≤ cap := by
  induction m generalizing k n used with
  | zero => exact h i
  | succ m ih =>
    rw [charge_succ]
    exact ih (settle_le h)

theorem charge_more (i : Nat) : used i ≤ charge cap m k n used i := by
  induction m generalizing k n used with
  | zero => exact Nat.le_refl _
  | succ m ih =>
    rw [charge_succ]
    refine Nat.le_trans ?_ ih
    by_cases hi : i = k
    · subst hi
      rw [settle_self]
      exact Nat.le_add_right _ _
    · rw [settle_ne hi]

theorem charge_first : charge cap (m + 1) k n used k = used k + taken cap k n used := by
  rw [charge_succ, charge_outside (Or.inl (Nat.lt_succ_self k)), settle_self]

theorem charge_earliest (h : ∀ i, used i ≤ cap) {i j : Nat} (hi : k ≤ i) (hij : i < j)
    (hj : charge cap m k n used j ≠ used j) : charge cap m k n used i = cap := by
  induction m generalizing k n used with
  | zero => exact absurd rfl hj
  | succ m ih =>
    have hjk : settle cap k n used j = used j := settle_ne (by omega)
    by_cases hik : i = k
    · subst hik
      rw [charge_first, ← settle_self]
      -- an interval that is not full leaves nothing for those after it
      by_contra hne
      have hall := taken_eq (Nat.lt_of_le_of_ne (settle_le h i) hne)
      rw [charge_succ, hall, Nat.sub_self, charge_none, hjk] at hj
      exact hj rfl
    · rw [charge_succ] at hj ⊢
      exact ih (settle_le h) (by omega) (by rwa [hjk])

theorem charge_total (h : ∀ i, used i ≤ cap) :
    ∑ i ∈ Finset.Ico k (k + m), (charge cap m k n used i - used i) =
      min n (∑ i ∈ Finset.Ico k (k + m), (cap - used i)) := by
  induction m generalizing k n used with
  | zero => simp
  | succ m ih =>
    have hlater : ∀ i ∈ Finset.Ico (k + 1) (k + 1 + m), settle cap k n used i = used i := by
      intro i hi
      have := (Finset.mem_Ico.mp hi).1
      exact settle_ne (by omega)
    have hrest : ∑ i ∈ Finset.Ico (k + 1) (k + 1 + m), (charge cap (m + 1) k n used i - used i) =
        min (n - taken cap k n used) (∑ i ∈ Finset.Ico (k + 1) (k + 1 + m), (cap - used i)) := by
      rw [charge_succ]
      calc ∑ i ∈ Finset.Ico (k + 1) (k + 1 + m), (charge cap m (k + 1) (n - taken cap k n used)
            (settle cap k n used) i - used i)
          = ∑ i ∈ Finset.Ico (k + 1) (k + 1 + m), (charge cap m (k + 1) (n - taken cap k n used)
            (settle cap k n used) i - settle cap k n used i) :=
            Finset.sum_congr rfl fun i hi => by rw [hlater i hi]
        _ = min (n - taken cap k n used)
            (∑ i ∈ Finset.Ico (k + 1) (k + 1 + m), (cap - settle cap k n used i)) := ih (settle_le h)
        _ = min (n - taken cap k n used) (∑ i ∈ Finset.Ico (k + 1) (k + 1 + m), (cap - used i)) :=
            congrArg (min (n - taken cap k n used)) (Finset.sum_congr rfl fun i hi => by rw [hlater i hi])
    have hlt : k < k + (m + 1) := by omega
    have hshift : k + (m + 1) = k + 1 + m := by omega
    rw [Finset.sum_eq_sum_Ico_succ_bot hlt, Finset.sum_eq_sum_Ico_succ_bot hlt, charge_first, hshift, hrest]
    unfold taken
    omega

theorem charge_greedy (h : ∀ i, used i ≤ cap) (m k n : Nat) :
    Greedy cap k (k + m) n used (charge cap m k n used) where
  outside := fun _ hi => charge_outside hi
  more := fun i => charge_more i
  earliest := fun _ _ hi hij hj => charge_earliest h hi hij hj
  total := charge_total h

end Timeline
