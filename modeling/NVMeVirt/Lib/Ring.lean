import Mathlib.Data.Nat.ModEq
import Mathlib.Tactic.Common

/-!
# Rings

The positions `0, 1, 2, …` of an unbounded sequence laid on a ring of `n` slots: position `k`
is slot `k % n` of lap `k / n`. A cursor keeps the slot and the parity of the lap, and moves
by comparison with `n`. `Latest` says of a ring of cells that each holds the last item laid on it.
-/

namespace Ring
set_option autoImplicit false

universe u
variable {α : Type u} {n : Nat}

theorem mod_succ (hn : 0 < n) (k : Nat) :
    (k + 1) % n = if k % n + 1 = n then 0 else k % n + 1 := by
  have hlt := Nat.mod_lt k hn
  rw [Nat.add_mod]
  rcases Nat.lt_or_ge 1 n with h | h
  · rw [Nat.mod_eq_of_lt h]
    by_cases hw : k % n + 1 = n
    · rw [if_pos hw, hw, Nat.mod_self]
    · rw [if_neg hw, Nat.mod_eq_of_lt (by omega)]
  · obtain rfl : n = 1 := by omega
    rw [if_pos (by omega), Nat.mod_one]

/-- The slot after `a`, as the code computes it, and those that follow. -/
theorem next_slot {a : Nat} (h : a < n) : (if a + 1 = n then 0 else a + 1) = (a + 1) % n := by
  rw [mod_succ (Nat.zero_lt_of_lt h), Nat.mod_eq_of_lt h]

theorem slot_shift {a : Nat} (h : a < n) (k : Nat) :
    ((if a + 1 = n then 0 else a + 1) + k) % n = (a + (k + 1)) % n := by
  rw [next_slot h, Nat.mod_add_mod, Nat.add_assoc, Nat.add_comm 1 k]

theorem div_succ (hn : 0 < n) (k : Nat) :
    (k + 1) / n = if k % n + 1 = n then k / n + 1 else k / n := by
  have hlt := Nat.mod_lt k hn
  have hk := Nat.div_add_mod k n
  by_cases hw : k % n + 1 = n
  · rw [if_pos hw]
    have hk1 : k + 1 = n * (k / n + 1) := by
      rw [Nat.mul_add]
      omega
    rw [hk1, Nat.mul_div_cancel_left _ hn]
  · rw [if_neg hw]
    have hk1 : k + 1 = (k % n + 1) + n * (k / n) := by omega
    rw [hk1, Nat.add_mul_div_left _ _ hn, Nat.div_eq_of_lt (by omega), Nat.zero_add]

/-- Within one lap of each other two positions share a slot only when they are equal. -/
theorem mod_inj {a b : Nat} (hab : a ≤ b) (hlt : b < a + n) (h : a % n = b % n) : a = b := by
  have hd : (b - a) % n = 0 := (Nat.modEq_iff_dvd' hab).mp h |>.modEq_zero_nat
  rw [Nat.mod_eq_of_lt (by omega)] at hd
  omega

/-- The walk along the ring from slot `a` to slot `b`, as the code measures it. -/
def walk (n a b : Nat) : Nat := if b < a then b + n - a else b - a

theorem walk_lt {a b : Nat} (ha : a < n) (hb : b < n) : walk n a b < n := by
  unfold walk
  split <;> omega

theorem add_walk_mod {a b : Nat} (ha : a < n) (hb : b < n) : (a + walk n a b) % n = b := by
  unfold walk
  split
  · rw [show a + (b + n - a) = b + n by omega, Nat.add_mod_right, Nat.mod_eq_of_lt hb]
  · rw [show a + (b - a) = b by omega, Nat.mod_eq_of_lt hb]

/-- The walk between two positions less than a lap apart. -/
theorem walk_mod (hn : 0 < n) (a d : Nat) (hd : d < n) : walk n (a % n) ((a + d) % n) = d := by
  have ha := Nat.mod_lt a hn
  have hb := Nat.mod_lt (a + d) hn
  have hw := walk_lt ha hb
  have hadd := add_walk_mod ha hb
  have h₁ : (a + walk n (a % n) ((a + d) % n)) % n = (a + d) % n := by
    rw [Nat.add_mod, Nat.mod_eq_of_lt hw]
    exact hadd
  rcases Nat.le_total (walk n (a % n) ((a + d) % n)) d with hle | hle
  · have := mod_inj (n := n) (Nat.add_le_add_left hle a) (by omega) h₁
    omega
  · have := mod_inj (n := n) (Nat.add_le_add_left hle a) (by omega) h₁.symm
    omega

/-- A position moved on towards `b` has that much less to walk. -/
theorem walk_advance (hn : 0 < n) (a : Nat) {b s : Nat} (hb : b < n) (hs : s ≤ walk n (a % n) b) :
    walk n ((a + s) % n) b = walk n (a % n) b - s := by
  have hw := walk_lt (Nat.mod_lt a hn) hb
  have hadd := add_walk_mod (Nat.mod_lt a hn) hb
  have hb' : (a + s + (walk n (a % n) b - s)) % n = b := by
    rw [show a + s + (walk n (a % n) b - s) = a + walk n (a % n) b by omega, ← Nat.mod_add_mod]
    exact hadd
  have h := walk_mod hn (a + s) (walk n (a % n) b - s) (by omega)
  rwa [hb'] at h

@[simp] theorem walk_self (a : Nat) : walk n a a = 0 := by
  unfold walk
  split <;> omega

structure Cursor where
  slot : Nat
  phase : Bool
  deriving Repr, DecidableEq

/-- One slot on, the phase turned over at the end of the ring. -/
def Cursor.next (n : Nat) (c : Cursor) : Cursor :=
  if c.slot + 1 = n then ⟨0, !c.phase⟩ else ⟨c.slot + 1, c.phase⟩

/-- The phase of the lap of position `k`: true on the first one. -/
def phaseAt (n k : Nat) : Bool := (k / n) % 2 = 0

theorem phaseAt_succ (hn : 0 < n) (k : Nat) :
    phaseAt n (k + 1) = if k % n + 1 = n then !phaseAt n k else phaseAt n k := by
  unfold phaseAt
  rw [div_succ hn]
  split
  · rcases Nat.mod_two_eq_zero_or_one (k / n) with h | h
    · simp [h, Nat.add_mod]
    · simp [h, Nat.add_mod]
  · rfl

theorem phaseAt_first {k : Nat} (h : k < n) : phaseAt n k = true := by
  simp [phaseAt, Nat.div_eq_of_lt h]

/-- The cursor moved on by `m` positions: the phase turns over once for each lap begun. -/
def Cursor.after (n : Nat) (c : Cursor) (m : Nat) : Cursor :=
  ⟨(c.slot + m) % n, c.phase == phaseAt n (c.slot + m)⟩

theorem Cursor.after_zero {c : Cursor} (h : c.slot < n) : c.after n 0 = c := by
  unfold after
  rw [Nat.add_zero, Nat.mod_eq_of_lt h, phaseAt_first h, beq_true]

theorem Cursor.next_after (hn : 0 < n) (c : Cursor) (m : Nat) :
    (c.after n m).next n = c.after n (m + 1) := by
  unfold next after
  rw [← Nat.add_assoc, mod_succ hn, phaseAt_succ hn]
  dsimp only
  split
  · cases c.phase with
    | false => simp
    | true => simp
  · rfl

/-- The first step may be taken before the others. -/
theorem Cursor.after_next (hn : 0 < n) {c : Cursor} (h : c.slot < n) (m : Nat) :
    (c.next n).after n m = c.after n (m + 1) := by
  induction m with
  | zero =>
    rw [after_zero (by unfold next; split <;> simp <;> omega), ← next_after hn, after_zero h]
  | succ m ih => rw [← next_after hn, ih, next_after hn]

theorem Cursor.after_after (hn : 0 < n) (c : Cursor) (a b : Nat) :
    (c.after n a).after n b = c.after n (a + b) := by
  induction b with
  | zero => rw [after_zero (c := c.after n a) (Nat.mod_lt _ hn), Nat.add_zero]
  | succ b ih => rw [← next_after hn, ih, next_after hn, Nat.add_assoc]

theorem Cursor.slot_after_lt (hn : 0 < n) (c : Cursor) (m : Nat) : (c.after n m).slot < n :=
  Nat.mod_lt _ hn

/-- Where a new ring is read and written first. -/
def start : Cursor := ⟨0, true⟩

theorem start_after (m : Nat) : start.after n m = ⟨m % n, phaseAt n m⟩ := by
  simp [start, Cursor.after]

theorem phaseAt_lap (hn : 0 < n) (k : Nat) : phaseAt n (k + n) = !phaseAt n k := by
  unfold phaseAt
  rw [Nat.add_div_right k hn]
  rcases Nat.mod_two_eq_zero_or_one (k / n) with h | h
  · simp [h, Nat.add_mod]
  · simp [h, Nat.add_mod]

/-- The items `xs` have been laid on the ring one after the other from position `base` on: the last
`n` of them are there, and a cell not yet reached is as it was. -/
structure Latest (n base : Nat) (blank cell : Nat → α) (xs : List α) : Prop where
  held : ∀ k (h : k < xs.length), xs.length ≤ k + n → cell ((base + k) % n) = xs[k]
  untouched : ∀ k, xs.length ≤ k → k < n → cell ((base + k) % n) = blank ((base + k) % n)

theorem Latest.nil (n base : Nat) (blank : Nat → α) : Latest n base blank blank [] where
  held k h := absurd h (Nat.not_lt_zero k)
  untouched _ _ _ := rfl

theorem Latest.push {base : Nat} {blank cell : Nat → α} {xs : List α} (h : Latest n base blank cell xs)
    (x : α) :
    Latest n base blank (Function.update cell ((base + xs.length) % n) x) (xs ++ [x]) where
  held k hk hle := by
    rw [List.length_append, List.length_singleton] at hk hle
    rcases Nat.lt_or_ge k xs.length with hlt | hge
    · -- an item less than a lap old does not share the slot of the new one
      have hne : (base + k) % n ≠ (base + xs.length) % n := by
        intro heq
        have := mod_inj (by omega) (by omega) heq
        omega
      rw [Function.update_of_ne hne, List.getElem_append_left hlt]
      exact h.held k hlt (by omega)
    · obtain rfl : k = xs.length := by omega
      rw [Function.update_self]
      simp
  untouched k hk hn := by
    rw [List.length_append, List.length_singleton] at hk
    have hne : (base + k) % n ≠ (base + xs.length) % n := by
      intro heq
      have := mod_inj (by omega) (by omega) heq.symm
      omega
    rw [Function.update_of_ne hne]
    exact h.untouched k (by omega) hn

/-- The phase tells a reader at position `c`, at most a lap behind, whether its item is there. -/
theorem Latest.phase_iff (hn : 0 < n) {blank cell : Nat → α} {xs : List α} {tag : α → Bool}
    (h : Latest n 0 blank cell xs) (hblank : ∀ i < n, tag (blank i) = false)
    (htag : ∀ k (hk : k < xs.length), tag xs[k] = phaseAt n k) {c : Nat} (hc : c ≤ xs.length)
    (hfull : xs.length ≤ c + n) : tag (cell (c % n)) = phaseAt n c ↔ c < xs.length := by
  constructor
  · intro heq
    by_contra hlt
    obtain rfl : c = xs.length := by omega
    rcases Nat.lt_or_ge xs.length n with hfirst | hlap
    · -- nothing has been laid on this cell yet
      have hcell := h.untouched _ (Nat.le_refl _) hfirst
      rw [Nat.zero_add] at hcell
      rw [hcell, Nat.mod_eq_of_lt hfirst, hblank _ hfirst, phaseAt_first hfirst] at heq
      cases heq
    · -- the item there is one lap old
      have hcell := h.held (xs.length - n) (by omega) (by omega)
      have hslot : (xs.length - n) % n = xs.length % n := by
        rw [← Nat.add_mod_right, Nat.sub_add_cancel hlap]
      have hphase := phaseAt_lap hn (xs.length - n)
      rw [Nat.sub_add_cancel hlap] at hphase
      rw [Nat.zero_add, hslot] at hcell
      rw [hcell, htag, hphase] at heq
      cases hp : phaseAt n (xs.length - n) with
      | false => simp [hp] at heq
      | true => simp [hp] at heq
  · intro hlt
    have hcell := h.held c hlt hfull
    rw [Nat.zero_add] at hcell
    rw [hcell, htag]

end Ring
