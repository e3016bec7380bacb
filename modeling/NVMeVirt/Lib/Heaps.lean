import Mathlib.Logic.Function.Basic
import Mathlib.Algebra.Group.Nat.Defs
import Mathlib.Order.Lattice
import Mathlib.Tactic.Common

/-!
# Binary heaps

Keys in the slots `1 .. n-1` of an array, slot `j` below slot `j / 2`. `Rising` and `Sinking`
are the two ways in which the order may be broken at one slot, and an exchange with the parent
or with the smaller child moves the broken place along.
-/

namespace Heaps
set_option autoImplicit false

universe u
variable {β : Type u} {key : Nat → β} {n hole : Nat}

def exchange (key : Nat → β) (a b : Nat) : Nat → β :=
  Function.update (Function.update key a (key b)) b (key a)

theorem exchange_left {a b : Nat} (hab : a ≠ b) : exchange key a b a = key b := by
  unfold exchange
  rw [Function.update_of_ne hab, Function.update_self]

theorem exchange_right (a b : Nat) : exchange key a b b = key a := Function.update_self _ _ _

theorem exchange_other {a b j : Nat} (ha : j ≠ a) (hb : j ≠ b) : exchange key a b j = key j := by
  unfold exchange
  rw [Function.update_of_ne hb, Function.update_of_ne ha]

variable [LinearOrder β]

def Ordered (key : Nat → β) (n : Nat) : Prop := ∀ j, 2 ≤ j → j < n → key (j / 2) ≤ key j

/-- Ordered but for the slot `hole`, whose key may be below its parent's. -/
structure Rising (key : Nat → β) (n hole : Nat) : Prop where
  edge : ∀ j, 2 ≤ j → j < n → j ≠ hole → key (j / 2) ≤ key j
  bridge : ∀ j, 2 ≤ hole → j < n → j / 2 = hole → key (hole / 2) ≤ key j

/-- Ordered but for the slot `hole`, whose key may be above its children's. -/
structure Sinking (key : Nat → β) (n hole : Nat) : Prop where
  edge : ∀ j, 2 ≤ j → j < n → j / 2 ≠ hole → key (j / 2) ≤ key j
  bridge : ∀ j, 2 ≤ hole → j < n → j / 2 = hole → key (hole / 2) ≤ key j

/-- Only the keys of the slots in use count. -/
theorem Rising.congr {key' : Nat → β} (h : Rising key n hole) (hk : ∀ j, 1 ≤ j → j < n → key' j = key j) :
    Rising key' n hole := by
  refine ⟨?_, ?_⟩
  · intro j hj hjn hjh
    rw [hk j (by omega) hjn, hk (j / 2) (by omega) (by omega)]
    exact h.edge j hj hjn hjh
  · intro j hhole hjn hp
    rw [hk j (by omega) hjn, hk (hole / 2) (by omega) (by omega)]
    exact h.bridge j hhole hjn hp

theorem Sinking.congr {key' : Nat → β} (h : Sinking key n hole) (hk : ∀ j, 1 ≤ j → j < n → key' j = key j) :
    Sinking key' n hole := by
  refine ⟨?_, ?_⟩
  · intro j hj hjn hp
    rw [hk j (by omega) hjn, hk (j / 2) (by omega) (by omega)]
    exact h.edge j hj hjn hp
  · intro j hhole hjn hp
    rw [hk j (by omega) hjn, hk (hole / 2) (by omega) (by omega)]
    exact h.bridge j hhole hjn hp

theorem Ordered.root (h : Ordered key n) (j : Nat) (hj : 1 ≤ j) (hjn : j < n) : key 1 ≤ key j := by
  induction j using Nat.strongRecOn with
  | ind j ih =>
    rcases Nat.lt_or_ge j 2 with hlt | hge
    · obtain rfl : j = 1 := by omega
      exact le_refl _
    · exact le_trans (ih (j / 2) (by omega) (by omega) (by omega)) (h j hge hjn)

theorem Rising.ordered (h : Rising key n hole) (hstop : 2 ≤ hole → key (hole / 2) ≤ key hole) :
    Ordered key n := by
  intro j hj hjn
  by_cases hjh : j = hole
  · subst hjh
    exact hstop hj
  · exact h.edge j hj hjn hjh

theorem Sinking.ordered (h : Sinking key n hole)
    (hstop : ∀ j, 2 ≤ j → j < n → j / 2 = hole → key hole ≤ key j) : Ordered key n := by
  intro j hj hjn
  by_cases hjh : j / 2 = hole
  · rw [hjh]
    exact hstop j hj hjn hjh
  · exact h.edge j hj hjn hjh

theorem Ordered.shorten (h : Ordered key n) {m : Nat} (hm : m ≤ n) : Ordered key m :=
  fun j hj hjm => h j hj (Nat.lt_of_lt_of_le hjm hm)

/-- The order among the slots that lie under `pos`, each against its parent. -/
def OrderedUnder (key : Nat → β) (n pos : Nat) : Prop :=
  ∀ j k, j / 2 ^ (k+1) = pos → j < n → key (j / 2) ≤ key j

theorem OrderedUnder.of_le {pos : Nat} (hpos : n ≤ pos) : OrderedUnder key n pos := by
  intro j k hj hjn
  have hle : j / 2 ^ (k+1) ≤ j := Nat.div_le_self _ _
  omega

/-- A slot under `pos` is a child of `pos` or lies under one. -/
theorem orderedUnder_iff (pos : Nat) : OrderedUnder key n pos ↔
    ∀ c, c / 2 = pos → c < n → key pos ≤ key c ∧ OrderedUnder key n c := by
  constructor
  · intro h c hc hcn
    refine ⟨?_, ?_⟩
    · have hedge := h c 0 (by rw [Nat.zero_add, Nat.pow_one]; exact hc) hcn
      rwa [hc] at hedge
    · intro j k hj hjn
      refine h j (k+1) ?_ hjn
      rw [Nat.pow_succ, ← Nat.div_div_eq_div_mul, hj]
      exact hc
  · intro h j k hj hjn
    have hle : j / 2 ^ k ≤ j := Nat.div_le_self _ _
    rw [Nat.pow_succ, ← Nat.div_div_eq_div_mul] at hj
    obtain ⟨hedge, hunder⟩ := h (j / 2 ^ k) hj (by omega)
    cases k with
    | zero =>
      rw [Nat.pow_zero, Nat.div_one] at hj hedge
      rw [hj]
      exact hedge
    | succ k => exact hunder j k rfl hjn

theorem under_root {j : Nat} (hj : 2 ≤ j) : ∃ k, j / 2 ^ (k+1) = 1 := by
  induction j using Nat.strongRecOn with
  | ind j ih =>
    rcases Nat.lt_or_ge (j / 2) 2 with hlt | hge
    · exact ⟨0, by rw [Nat.zero_add, Nat.pow_one]; omega⟩
    · obtain ⟨k, hk⟩ := ih (j / 2) (by omega) hge
      exact ⟨k + 1, by rw [Nat.pow_succ', ← Nat.div_div_eq_div_mul]; exact hk⟩

theorem orderedUnder_one : OrderedUnder key n 1 ↔ Ordered key n := by
  constructor
  · intro h j hj hjn
    obtain ⟨k, hk⟩ := under_root hj
    exact h j k hk hjn
  · intro h j k hk hjn
    refine h j ?_ hjn
    by_contra hlt
    have hzero : j / 2 ^ (k+1) = 0 := Nat.div_eq_of_lt
      (Nat.lt_of_lt_of_le (Nat.not_le.mp hlt) (Nat.le_self_pow (Nat.succ_ne_zero k) 2))
    omega

theorem Ordered.rising (h : Ordered key n) {v : β} (hv : v ≤ key hole) :
    Rising (Function.update key hole v) n hole := by
  refine ⟨?_, ?_⟩
  · intro j hj hjn hjh
    rw [Function.update_of_ne hjh]
    by_cases hp : j / 2 = hole
    · have hle := h j hj hjn
      rw [hp] at hle ⊢
      rw [Function.update_self]
      exact le_trans hv hle
    · rw [Function.update_of_ne hp]
      exact h j hj hjn
  · intro j hhole hjn hp
    rw [Function.update_of_ne (by omega), Function.update_of_ne (by omega)]
    have hle := h j (by omega) hjn
    rw [hp] at hle
    exact le_trans (h hole hhole (by omega)) hle

theorem Ordered.sinking (h : Ordered key n) {v : β} (hv : key hole ≤ v) :
    Sinking (Function.update key hole v) n hole := by
  refine ⟨?_, ?_⟩
  · intro j hj hjn hp
    rw [Function.update_of_ne hp]
    by_cases hjh : j = hole
    · subst hjh
      rw [Function.update_self]
      exact le_trans (h j hj hjn) hv
    · rw [Function.update_of_ne hjh]
      exact h j hj hjn
  · intro j hhole hjn hp
    rw [Function.update_of_ne (by omega), Function.update_of_ne (by omega)]
    have hle := h j (by omega) hjn
    rw [hp] at hle
    exact le_trans (h hole hhole (by omega)) hle

theorem Ordered.push (h : Ordered key n) (v : β) :
    Rising (Function.update key n v) (n+1) n := by
  refine ⟨?_, ?_⟩
  · intro j hj hjn hne
    rw [Function.update_of_ne hne, Function.update_of_ne (by omega)]
    exact h j hj (by omega)
  · intro j hhole hjn hp
    omega

/-- A key put in the place of the root, in a heap that may have become shorter. -/
theorem Ordered.replaceRoot (h : Ordered key n) {m : Nat} (hm : m ≤ n) (v : β) :
    Sinking (Function.update key 1 v) m 1 := by
  refine ⟨?_, ?_⟩
  · intro j hj hjm hp
    rw [Function.update_of_ne hp, Function.update_of_ne (by omega)]
    exact h j hj (by omega)
  · intro j hhole
    omega

theorem Rising.up (h : Rising key n hole) (hhole : 2 ≤ hole) (hn : hole < n)
    (hlt : key hole ≤ key (hole / 2)) : Rising (exchange key hole (hole / 2)) n (hole / 2) := by
  have hne : hole ≠ hole / 2 := by omega
  refine ⟨?_, ?_⟩
  · intro j hj hjn hjp
    by_cases hjh : j = hole
    · subst hjh
      rw [exchange_right, exchange_left hne]
      exact hlt
    · rw [exchange_other hjh hjp]
      by_cases hph : j / 2 = hole
      · rw [hph, exchange_left hne]
        exact h.bridge j hhole hjn hph
      · by_cases hpp : j / 2 = hole / 2
        · have hedge := h.edge j hj hjn hjh
          rw [hpp, exchange_right]
          rw [hpp] at hedge
          exact le_trans hlt hedge
        · rw [exchange_other hph hpp]
          exact h.edge j hj hjn hjh
  · intro j hparent hjn hp
    have hpar := h.edge (hole / 2) hparent (by omega) (by omega)
    rw [exchange_other (j := hole / 2 / 2) (by omega) (by omega)]
    by_cases hjh : j = hole
    · subst hjh
      rw [exchange_left hne]
      exact hpar
    · have hedge := h.edge j (by omega) hjn hjh
      rw [hp] at hedge
      rw [exchange_other hjh (by omega)]
      exact le_trans hpar hedge

theorem Sinking.down (h : Sinking key n hole) (hhole : 1 ≤ hole) {c : Nat} (hc : c / 2 = hole)
    (hcn : c < n) (hmin : ∀ j, 2 ≤ j → j < n → j / 2 = hole → key c ≤ key j)
    (hle : key c ≤ key hole) : Sinking (exchange key hole c) n c := by
  have hne : hole ≠ c := by omega
  refine ⟨?_, ?_⟩
  · intro j hj hjn hpc
    by_cases hjh : j = hole
    · subst hjh
      rw [exchange_other (j := j / 2) (by omega) hpc, exchange_left hne]
      exact h.bridge c hj hcn hc
    · by_cases hph : j / 2 = hole
      · rw [hph, exchange_left hne]
        by_cases hjc : j = c
        · subst hjc
          rw [exchange_right]
          exact hle
        · rw [exchange_other hjh hjc]
          exact hmin j hj hjn hph
      · rw [exchange_other hph hpc, exchange_other hjh (by rintro rfl; exact hph hc)]
        exact h.edge j hj hjn hph
  · intro j _ hjn hp
    have hedge := h.edge j (by omega) hjn (by omega)
    rw [hc, exchange_left hne, exchange_other (by omega) (by omega)]
    rw [hp] at hedge
    exact hedge

end Heaps
