import Mathlib.Algebra.Ring.Nat
import Mathlib.Data.List.Basic
import Mathlib.Tactic.Common

/-!
# Ranges laid end to end

A range is a start and a length. `Tiles lo l hi`: the ranges of `l`, in order, fill
`lo` up to `hi` without a gap.
-/

namespace Ranges
set_option autoImplicit false

def Tiles : Nat → List (Nat × Nat) → Nat → Prop
  | lo, [], hi => lo = hi
  | lo, r :: l, hi => r.1 = lo ∧ 0 < r.2 ∧ Tiles (lo + r.2) l hi

def Within (r : Nat × Nat) (i : Nat) : Prop := r.1 ≤ i ∧ i < r.1 + r.2

variable {lo hi : Nat} {l : List (Nat × Nat)}

theorem tiles_nil : Tiles lo [] lo := rfl

theorem Tiles.le (h : Tiles lo l hi) : lo ≤ hi := by
  induction l generalizing lo with
  | nil => exact Nat.le_of_eq h
  | cons r l ih =>
    obtain ⟨_, _, hl⟩ := h
    have := ih hl
    omega

theorem Tiles.snoc (h : Tiles lo l hi) {n : Nat} (hn : 0 < n) : Tiles lo (l ++ [(hi, n)]) (hi + n) := by
  induction l generalizing lo with
  | nil =>
    obtain rfl : lo = hi := h
    exact ⟨rfl, hn, rfl⟩
  | cons r l ih =>
    obtain ⟨h₁, h₂, hl⟩ := h
    exact ⟨h₁, h₂, ih hl⟩

/-- The ranges cover what lies between, and nothing else. -/
theorem Tiles.cover (h : Tiles lo l hi) (i : Nat) : (∃ r ∈ l, Within r i) ↔ lo ≤ i ∧ i < hi := by
  induction l generalizing lo with
  | nil =>
    obtain rfl : lo = hi := h
    simp
  | cons r l ih =>
    obtain ⟨h₁, h₂, hl⟩ := h
    have hle := hl.le
    simp only [List.mem_cons, exists_eq_or_imp]
    rw [ih hl, Within, h₁]
    omega

theorem Tiles.pairwise (h : Tiles lo l hi) : l.Pairwise (fun a b => ∀ i, ¬ (Within a i ∧ Within b i)) := by
  induction l generalizing lo with
  | nil => exact List.Pairwise.nil
  | cons r l ih =>
    obtain ⟨h₁, h₂, hl⟩ := h
    refine List.Pairwise.cons ?_ (ih hl)
    intro b hb i ⟨ha, hbi⟩
    have hi := ((hl.cover i).mp ⟨b, hb, hbi⟩).1
    have := ha.2
    omega

theorem Tiles.end_le (h : Tiles lo l hi) {r : Nat × Nat} (hr : r ∈ l) : r.1 + r.2 ≤ hi := by
  induction l generalizing lo with
  | nil => cases hr
  | cons r' l ih =>
    obtain ⟨h₁, _, hl⟩ := h
    rcases List.mem_cons.mp hr with rfl | hr
    · rw [h₁]
      exact hl.le
    · exact ih hl hr

/-- What lies below the sum of some sizes lies in one of them. -/
theorem exists_split {sizes : List Nat} {x : Nat} (h : x < sizes.sum) :
    ∃ before n after, sizes = before ++ n :: after ∧ before.sum ≤ x ∧ x < before.sum + n := by
  induction sizes generalizing x with
  | nil => cases h
  | cons m sizes ih =>
    by_cases hx : x < m
    · exact ⟨[], m, sizes, rfl, Nat.zero_le _, by simpa using hx⟩
    · rw [List.sum_cons] at h
      have hrest : x - m < sizes.sum := by omega
      obtain ⟨before, n, after, rfl, h₁, h₂⟩ := ih hrest
      refine ⟨m :: before, n, after, rfl, ?_, ?_⟩
      · rw [List.sum_cons]
        omega
      · rw [List.sum_cons]
        omega

end Ranges
