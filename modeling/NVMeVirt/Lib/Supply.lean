import Mathlib.Algebra.BigOperators.Intervals
import Mathlib.Algebra.Order.BigOperators.Group.Finset
import Mathlib.Tactic.Common

/-!
# Supplies

A row of intervals, the `j`-th of which has `a j` units to give. A demand is met from the first
interval on; `Meets a n d` says that interval `d` is the last one that `n` units take.
-/

namespace Supply
set_option autoImplicit false

/-- What the first `j` intervals have. -/
def upTo (a : Nat → Nat) (j : Nat) : Nat := ∑ i ∈ Finset.range j, a i

structure Meets (a : Nat → Nat) (n d : Nat) : Prop where
  enough : n ≤ upTo a (d + 1)
  needed : 0 < d → upTo a d < n

variable {a : Nat → Nat} {cap n m d e j k total : Nat}

theorem upTo_succ : upTo a (j + 1) = upTo a j + a j := Finset.sum_range_succ a j

theorem upTo_cons : upTo a (j + 1) = a 0 + upTo (fun i => a (i + 1)) j := by
  unfold upTo
  rw [Finset.sum_range_succ', Nat.add_comm]

theorem upTo_mono (h : j ≤ k) : upTo a j ≤ upTo a k :=
  Finset.sum_le_sum_of_subset (Finset.range_subset_range.mpr h)

theorem upTo_const (h : ∀ i < j, a i = n) : upTo a j = j * n := by
  calc upTo a j = (Finset.range j).card * n :=
        Finset.sum_const_nat fun i hi => h i (Finset.mem_range.mp hi)
    _ = j * n := by rw [Finset.card_range]

theorem upTo_le (h : ∀ i, a i ≤ cap) (j : Nat) : upTo a j ≤ j * cap := by
  calc upTo a j ≤ ∑ _i ∈ Finset.range j, cap := Finset.sum_le_sum fun i _ => h i
    _ = j * cap := by rw [Finset.sum_const_nat (fun _ _ => rfl), Finset.card_range]

/-- A demand beyond the first interval is one of the rest on the others. -/
theorem Meets.cons (hlt : a 0 < n) (h : Meets (fun i => a (i + 1)) (n - a 0) d) : Meets a n (d + 1) := by
  obtain ⟨henough, hneeded⟩ := h
  constructor
  · rw [upTo_cons]
    omega
  · intro _
    rw [upTo_cons]
    rcases Nat.eq_zero_or_pos d with rfl | hd
    · exact hlt
    · have := hneeded hd
      omega

theorem Meets.le_iff (h : Meets a n d) : d ≤ k ↔ n ≤ upTo a (k + 1) := by
  constructor
  · intro hle
    exact h.enough.trans (upTo_mono (Nat.succ_le_succ hle))
  · intro hn
    by_contra hlt
    have hneed := h.needed (by omega)
    have hmono : upTo a (k + 1) ≤ upTo a d := upTo_mono (by omega)
    omega

theorem Meets.mono (h : Meets a n d) (h' : Meets a m e) (hnm : n ≤ m) : d ≤ e :=
  h.le_iff.mpr (hnm.trans h'.enough)

theorem Meets.unique (h : Meets a n d) (h' : Meets a n e) : d = e :=
  Nat.le_antisymm (h.mono h' (Nat.le_refl n)) (h'.mono h (Nat.le_refl n))

theorem Meets.zero (h : Meets a 0 d) : d = 0 :=
  Nat.le_zero.mp (h.le_iff.mpr (Nat.zero_le _))

/-- The last interval that a demand takes has something to give. -/
theorem Meets.last_pos (h : Meets a n d) (hn : 0 < n) : 0 < a d := by
  have henough := h.enough
  rw [upTo_succ] at henough
  rcases Nat.eq_zero_or_pos d with rfl | hd
  · exact hn.trans_le (henough.trans_eq (Nat.zero_add _))
  · have := h.needed hd
    omega

/-- An interval that counts towards the demand and has something to give is not behind the last one. -/
theorem Meets.le_of_pos (h : Meets a n d) (hj : 0 < a j) (hn : upTo a (j + 1) ≤ n) : j ≤ d := by
  by_contra hlt
  have hbefore : upTo a (d + 1) ≤ upTo a j := upTo_mono (by omega)
  have henough := h.enough
  rw [upTo_succ] at hn
  omega

theorem exists_meets (hn : n ≤ upTo a (total + 1)) : ∃ d ≤ total, Meets a n d := by
  induction total with
  | zero => exact ⟨0, Nat.le_refl 0, hn, fun h => absurd h (Nat.lt_irrefl 0)⟩
  | succ total ih =>
    by_cases hle : n ≤ upTo a (total + 1)
    · obtain ⟨d, hd, h⟩ := ih hle
      exact ⟨d, Nat.le_succ_of_le hd, h⟩
    · exact ⟨total + 1, Nat.le_refl _, hn, fun _ => Nat.not_le.mp hle⟩

/-- One unit more takes a later interval when the units before it use their intervals up. -/
theorem Meets.lt_succ_iff (h : Meets a n d) (h' : Meets a (n + 1) e) (hn : 0 < n) :
    d < e ↔ ∃ j, upTo a j = n := by
  constructor
  · intro hlt
    have hneed := h'.needed (by omega)
    have hmono : upTo a (d + 1) ≤ upTo a e := upTo_mono hlt
    exact ⟨d + 1, by have := h.enough; omega⟩
  · rintro ⟨j, rfl⟩
    cases j with
    | zero => exact absurd hn (Nat.lt_irrefl 0)
    | succ j =>
      have hd : d ≤ j := h.le_iff.mpr (Nat.le_refl _)
      have he : ¬ e ≤ j := fun he => absurd (h'.le_iff.mp he) (Nat.not_succ_le_self _)
      omega

/-- The cost of `n` units that are met in interval `d`: a price for each unit, and one for each
interval beyond those that `n` units fill. -/
def cost (price unit cap n d : Nat) : Nat := price * n + (d - n / cap) * unit

theorem cost_zero (price unit cap : Nat) : cost price unit cap 0 0 = 0 := by
  unfold cost
  rw [Nat.mul_zero, Nat.zero_sub, Nat.zero_mul]

/-- More units of the first `total` never cost less. -/
def Ordered (a : Nat → Nat) (price unit cap total : Nat) : Prop :=
  ∀ n m d e, n ≤ m → m ≤ total → Meets a n d → Meets a m e → cost price unit cap n d ≤ cost price unit cap m e

/-- Where `k * cap` units are to be had, the first `k` intervals lack one unit of them at most, or
the unit before the last one uses its interval up. -/
def Balanced (a : Nat → Nat) (cap total : Nat) : Prop :=
  ∀ k, 0 < k → k * cap ≤ total → k * cap ≤ upTo a k + 1 ∨ ∃ j, upTo a j + 1 = k * cap

variable {price unit : Nat}

theorem cost_succ (hcap : 0 < cap) (hev : Balanced a cap total) (hn : n + 1 ≤ total) (h : Meets a n d)
    (h' : Meets a (n + 1) e) : cost price unit cap n d ≤ cost price unit cap (n + 1) e := by
  have hle := h.mono h' (Nat.le_succ n)
  have hquot : d - n / cap ≤ e - (n + 1) / cap := by
    rw [Nat.succ_div]
    split
    · rename_i hdvd
      obtain ⟨k, hk⟩ := hdvd
      rw [Nat.mul_comm] at hk
      have hk0 : 0 < k := Nat.pos_of_ne_zero (by
        rintro rfl
        omega)
      have hdiv : n / cap + 1 = k := by
        have hq : (n + 1) / cap = k := by rw [hk, Nat.mul_div_cancel k hcap]
        rw [Nat.succ_div, if_pos ⟨k, by rw [hk, Nat.mul_comm]⟩] at hq
        exact hq
      rcases hev k hk0 (hk ▸ hn) with hfull | ⟨j, hj⟩
      · have hdk : d ≤ n / cap := h.le_iff.mpr (by
          rw [hdiv]
          omega)
        omega
      · rcases Nat.eq_zero_or_pos n with rfl | hpos
        · have hd : d ≤ 0 := h.le_iff.mpr (Nat.zero_le _)
          omega
        · have hlt := (h.lt_succ_iff h' hpos).mpr ⟨j, by omega⟩
          omega
    · exact Nat.sub_le_sub_right hle _
  unfold cost
  exact Nat.add_le_add (Nat.mul_le_mul_left price (Nat.le_succ n)) (Nat.mul_le_mul_right unit hquot)

theorem Balanced.ordered (hcap : 0 < cap) (hev : Balanced a cap total) (htotal : total ≤ upTo a (k + 1)) :
    Ordered a price unit cap total := by
  intro n m d e hnm hm h h'
  induction hnm generalizing e with
  | refl => rw [h.unique h']
  | @step m hnm ih =>
    have hm' : m ≤ upTo a (k + 1) := by omega
    obtain ⟨e₀, _, h₀⟩ := exists_meets hm'
    exact (ih e₀ (by omega) h₀).trans (cost_succ hcap hev hm h₀ h')

/-- The rule is exact when an interval costs more than a unit. -/
theorem ordered_iff (hcap : 0 < cap) (hprice : price < unit) (htotal : total ≤ upTo a (k + 1)) :
    Ordered a price unit cap total ↔ Balanced a cap total := by
  refine ⟨?_, fun hev => hev.ordered hcap htotal⟩
  intro hord q hq hqt
  obtain ⟨n, hn⟩ : ∃ n, q * cap = n + 1 :=
    ⟨q * cap - 1, (Nat.sub_add_cancel (Nat.mul_pos hq hcap)).symm⟩
  by_contra hnot
  rw [not_or] at hnot
  obtain ⟨hlack, hend⟩ := hnot
  have hall : n + 1 ≤ upTo a (k + 1) := by omega
  obtain ⟨d, _, h⟩ := exists_meets ((Nat.le_succ n).trans hall)
  obtain ⟨e, _, h'⟩ := exists_meets hall
  have hle := hord n (n + 1) d e (Nat.le_succ n) (hn ▸ hqt) h h'
  have hqn : (n + 1) / cap = q := by rw [← hn, Nat.mul_div_cancel q hcap]
  have hqn' : n / cap + 1 = q := by
    rw [Nat.succ_div, if_pos ⟨q, by rw [← hn, Nat.mul_comm]⟩] at hqn
    exact hqn
  have hqd : q ≤ d := by
    by_contra hlt
    have hdn := h.le_iff (k := q - 1)
    rw [Nat.sub_add_cancel hq] at hdn
    have hfits := hdn.mp (by omega)
    omega
  have hde : e ≤ d := by
    by_contra hlt
    have hpos : 0 < n := by
      by_contra hz
      obtain rfl : n = 0 := by omega
      have hd : d ≤ 0 := h.le_iff.mpr (Nat.zero_le _)
      omega
    obtain ⟨j, hj⟩ := (h.lt_succ_iff h' hpos).mp (Nat.not_le.mp hlt)
    exact hend ⟨j, by omega⟩
  -- the interval saved is worth more than the unit
  unfold cost at hle
  rw [hqn, Nat.mul_succ] at hle
  have hstep : d - n / cap = d - q + 1 := by omega
  rw [hstep, Nat.succ_mul] at hle
  have hmul : (e - q) * unit ≤ (d - q) * unit := Nat.mul_le_mul_right unit (Nat.sub_le_sub_right hde q)
  omega

end Supply
