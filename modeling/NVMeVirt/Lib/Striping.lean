import Mathlib.Algebra.Order.Ring.Nat
import Mathlib.Data.Finset.Card
import Mathlib.Data.Finset.Image
import Mathlib.Tactic.Common

/-!
# Round-robin striping

Stripes of items over `N` disks. A stripe goes round `d` of them: stripe `z` starts `d` disks behind
stripe `z - 1`, modulo `N`. If `d` divides `N`, the disks fall into `N / d` groups, and each stripe has
one group to itself or shares all of it.
-/

namespace Striping
set_option autoImplicit false

variable {N d z z' k k' n : Nat}

/-- The disk with item `k` of stripe `z`. -/
def disk (N d z k : Nat) : Nat := z * d % N + k % d

/-- The disks of the first `n` items of stripe `z`. -/
def disks (N d z n : Nat) : Finset Nat := (Finset.range n).image (disk N d z)

/-- The group of stripe `z`. -/
def group (N d z : Nat) : Nat := z % (N / d)

theorem disk_eq (hd : d ∣ N) : disk N d z k = d * group N d z + k % d := by
  obtain ⟨m, rfl⟩ := hd
  rcases Nat.eq_zero_or_pos d with rfl | hpos
  · simp [disk]
  · unfold disk group
    rw [Nat.mul_div_cancel_left m hpos, Nat.mul_comm z, Nat.mul_mod_mul_left]

theorem disk_lt (hd : d ∣ N) (hN : 0 < N) : disk N d z k < N := by
  have hpos : 0 < d := Nat.pos_of_dvd_of_pos hd hN
  have hgroup : group N d z < N / d := Nat.mod_lt _ (Nat.div_pos (Nat.le_of_dvd hN hd) hpos)
  calc disk N d z k = d * group N d z + k % d := disk_eq hd
    _ < d * group N d z + d := Nat.add_lt_add_left (Nat.mod_lt k hpos) _
    _ = d * (group N d z + 1) := (Nat.mul_succ _ _).symm
    _ ≤ d * (N / d) := Nat.mul_le_mul_left d hgroup
    _ = N := Nat.mul_div_cancel' hd

theorem disk_div (hd : d ∣ N) (hpos : 0 < d) : disk N d z k / d = group N d z := by
  rw [disk_eq hd, Nat.mul_add_div hpos, Nat.div_eq_of_lt (Nat.mod_lt k hpos), Nat.add_zero]

theorem disk_inj (h : disk N d z k = disk N d z k') : k % d = k' % d := Nat.add_left_cancel h

theorem disk_mod : disk N d z (k % d) = disk N d z k := by
  unfold disk
  rw [Nat.mod_mod]

theorem disk_succ_ne (h : 1 < d) : disk N d z k ≠ disk N d z (k + 1) := by
  intro heq
  have hmod := disk_inj heq
  rw [Nat.add_mod, Nat.mod_eq_of_lt h] at hmod
  have hlt : k % d < d := Nat.mod_lt k (by omega)
  rcases Nat.lt_or_ge (k % d + 1) d with hin | hout
  · rw [Nat.mod_eq_of_lt hin] at hmod
    omega
  · have hlast : k % d + 1 = d := by omega
    rw [hlast, Nat.mod_self] at hmod
    omega

theorem disk_injOn : Set.InjOn (disk N d z) (Finset.range (min d n)) := by
  intro k hk k' hk' heq
  have hlt : k < d := (Finset.mem_range.mp hk).trans_le (min_le_left _ _)
  have hlt' : k' < d := (Finset.mem_range.mp hk').trans_le (min_le_left _ _)
  have hmod := disk_inj heq
  rwa [Nat.mod_eq_of_lt hlt, Nat.mod_eq_of_lt hlt'] at hmod

theorem disks_min (hpos : 0 < d) : disks N d z n = disks N d z (min d n) := by
  unfold disks
  apply Finset.Subset.antisymm
  · intro x hx
    obtain ⟨k, hk, rfl⟩ := Finset.mem_image.mp hx
    apply Finset.mem_image.mpr
    refine ⟨k % d, ?_, disk_mod⟩
    have hlt : k < n := Finset.mem_range.mp hk
    exact Finset.mem_range.mpr (lt_min (Nat.mod_lt k hpos) ((Nat.mod_le k d).trans_lt hlt))
  · apply Finset.image_subset_image
    exact Finset.range_subset_range.mpr (min_le_right _ _)

theorem card_disks (hpos : 0 < d) : (disks N d z n).card = min d n := by
  rw [disks_min hpos]
  unfold disks
  rw [Finset.card_image_of_injOn disk_injOn, Finset.card_range]

/-- Two stripes of one length share all their disks or none. -/
theorem disks_eq_or_disjoint (z z' n : Nat) (hd : d ∣ N) (hpos : 0 < d) :
    disks N d z n = disks N d z' n ∨ Disjoint (disks N d z n) (disks N d z' n) := by
  by_cases hgroup : group N d z = group N d z'
  · refine Or.inl ?_
    unfold disks
    apply Finset.image_congr
    intro k _
    rw [disk_eq hd, disk_eq hd, hgroup]
  · refine Or.inr ?_
    rw [Finset.disjoint_left]
    intro x hx hx'
    obtain ⟨k, _, rfl⟩ := Finset.mem_image.mp hx
    obtain ⟨k', _, heq⟩ := Finset.mem_image.mp hx'
    apply hgroup
    rw [← disk_div hd hpos (k := k), ← heq, disk_div hd hpos]

/-- `n` items in packs of `p` make this many packs. -/
theorem image_div_range {p : Nat} (hp : 0 < p) :
    (Finset.range n).image (· / p) = Finset.range ((n + p - 1) / p) := by
  ext k
  rw [Finset.mem_image, Finset.mem_range, ← Nat.succ_le_iff, Nat.le_div_iff_mul_le hp, Nat.succ_mul]
  constructor
  · rintro ⟨i, hi, rfl⟩
    have hlt : i < n := Finset.mem_range.mp hi
    have hle : i / p * p ≤ i := Nat.div_mul_le_self i p
    omega
  · intro hk
    refine ⟨k * p, ?_, Nat.mul_div_cancel k hp⟩
    apply Finset.mem_range.mpr
    omega

end Striping
