import Mathlib.Algebra.BigOperators.Intervals
import Mathlib.Tactic.Common

/-!
# Filling batches

Weighted items are put into the open batch of their key. A batch with `P` items is closed:
its total is recorded and the next batch of the key starts empty.
-/

namespace Batches
set_option autoImplicit false
open Finset

universe u

structure Book (ι : Type u) where
  openBatch : ι → List Nat
  closed : List Nat

variable {ι : Type u} [DecidableEq ι] {P : Nat}

def Book.put (P : Nat) (b : Book ι) (e : ι × Nat) : Book ι :=
  if (b.openBatch e.1).length + 1 = P then
    ⟨Function.update b.openBatch e.1 [], b.closed ++ [(b.openBatch e.1).sum + e.2]⟩
  else ⟨Function.update b.openBatch e.1 (b.openBatch e.1 ++ [e.2]), b.closed⟩

def Book.putAll (P : Nat) (b : Book ι) (l : List (ι × Nat)) : Book ι := l.foldl (Book.put P) b

def Book.Short (P : Nat) (b : Book ι) : Prop := ∀ i, (b.openBatch i).length < P

theorem Book.put_short {b : Book ι} (h : b.Short P) (e : ι × Nat) : (b.put P e).Short P := by
  intro j
  have hj := h j
  unfold Book.put
  by_cases hfull : (b.openBatch e.1).length + 1 = P
  · by_cases he : j = e.1
    · subst he
      simp [hfull]
      omega
    · simp [hfull, he, hj]
  · by_cases he : j = e.1
    · subst he
      simp [hfull]
      omega
    · simp [hfull, he, hj]

theorem Book.put_length {b : Book ι} (h : b.Short P) (e : ι × Nat) (j : ι) :
    ((b.put P e).openBatch j).length =
      ((b.openBatch j).length + if e.1 = j then 1 else 0) % P := by
  have hj := h j
  unfold Book.put
  by_cases hfull : (b.openBatch e.1).length + 1 = P
  · by_cases he : j = e.1
    · subst he
      simp [hfull]
    · simp [hfull, he, Ne.symm he, Nat.mod_eq_of_lt hj]
  · by_cases he : j = e.1
    · subst he
      have hlt : (b.openBatch e.1).length + 1 < P := by omega
      simp [hfull, Nat.mod_eq_of_lt hlt]
    · simp [hfull, he, Ne.symm he, Nat.mod_eq_of_lt hj]

theorem Book.putAll_length {b : Book ι} (h : b.Short P) (l : List (ι × Nat)) (j : ι) :
    ((b.putAll P l).openBatch j).length =
      ((b.openBatch j).length + l.countP (fun e => decide (e.1 = j))) % P := by
  induction l generalizing b with
  | nil => simp [Book.putAll, Nat.mod_eq_of_lt (h j)]
  | cons e l ih =>
    have hrest := ih (b.put_short h e)
    rw [b.put_length h e j] at hrest
    rw [List.countP_cons]
    simp only [decide_eq_true_eq]
    calc ((b.putAll P (e :: l)).openBatch j).length
        = (((b.openBatch j).length + if e.1 = j then 1 else 0) % P +
            l.countP (fun e => decide (e.1 = j))) % P := hrest
      _ = ((b.openBatch j).length + (l.countP (fun e => decide (e.1 = j)) + if e.1 = j then 1 else 0)) % P := by
          rw [Nat.mod_add_mod]
          congr 1
          omega

theorem Book.put_total (b : Book ι) (e : ι × Nat) {s : Finset ι} (he : e.1 ∈ s) :
    (∑ j ∈ s, ((b.put P e).openBatch j).sum) + (b.put P e).closed.sum =
      (∑ j ∈ s, (b.openBatch j).sum) + b.closed.sum + e.2 := by
  have hrest : ∀ l : List Nat, ∑ j ∈ s.erase e.1, (Function.update b.openBatch e.1 l j).sum =
      ∑ j ∈ s.erase e.1, (b.openBatch j).sum := by
    intro l
    apply sum_congr rfl
    intro j hj
    rw [Function.update_of_ne (ne_of_mem_erase hj)]
  have hall : ∀ l : List Nat, ∑ j ∈ s, (Function.update b.openBatch e.1 l j).sum =
      l.sum + ∑ j ∈ s.erase e.1, (b.openBatch j).sum := by
    intro l
    rw [← add_sum_erase s _ he, Function.update_self, hrest]
  have hold := add_sum_erase s (fun j => (b.openBatch j).sum) he
  unfold Book.put
  by_cases hfull : (b.openBatch e.1).length + 1 = P
  · rw [if_pos hfull, hall, List.sum_append, List.sum_nil, List.sum_singleton]
    omega
  · rw [if_neg hfull, hall, List.sum_append, List.sum_singleton]
    dsimp only
    omega

theorem Book.putAll_total (b : Book ι) {l : List (ι × Nat)} {s : Finset ι} (hl : ∀ e ∈ l, e.1 ∈ s) :
    (∑ j ∈ s, ((b.putAll P l).openBatch j).sum) + (b.putAll P l).closed.sum =
      (∑ j ∈ s, (b.openBatch j).sum) + b.closed.sum + (l.map Prod.snd).sum := by
  induction l generalizing b with
  | nil => simp [Book.putAll]
  | cons e l ih =>
    have hrest := ih (b.put P e) (fun e' he' => hl e' (List.mem_cons_of_mem e he'))
    have hput := b.put_total (P := P) e (hl e List.mem_cons_self)
    rw [List.map_cons, List.sum_cons]
    have hcons : b.putAll P (e :: l) = (b.put P e).putAll P l := rfl
    rw [hcons]
    omega

/-- All items have weight `c`. -/
structure Book.Uniform (P c : Nat) (b : Book ι) : Prop where
  openBatch : ∀ i, ∀ w ∈ b.openBatch i, w = c
  closed : ∀ w ∈ b.closed, w = P * c

omit [DecidableEq ι] in
theorem Book.Uniform.openBatch_sum {c : Nat} {b : Book ι} (h : b.Uniform P c) (i : ι) :
    (b.openBatch i).sum = (b.openBatch i).length * c := by
  conv_lhs => rw [List.eq_replicate_of_mem (h.openBatch i)]
  exact List.sum_replicate_nat

theorem Book.Uniform.put {c : Nat} {b : Book ι} (h : b.Uniform P c) {e : ι × Nat} (he : e.2 = c) :
    (b.put P e).Uniform P c := by
  have hsum := h.openBatch_sum e.1
  unfold Book.put
  by_cases hfull : (b.openBatch e.1).length + 1 = P
  · rw [if_pos hfull]
    constructor
    · intro i w hw
      dsimp only at hw
      by_cases hi : i = e.1
      · subst hi
        simp at hw
      · rw [Function.update_of_ne hi] at hw
        exact h.openBatch i w hw
    · intro w hw
      rcases List.mem_append.mp hw with hw | hw
      · exact h.closed w hw
      · rw [List.mem_singleton.mp hw, hsum, he, ← hfull, Nat.add_one_mul]
  · rw [if_neg hfull]
    constructor
    · intro i w hw
      dsimp only at hw
      by_cases hi : i = e.1
      · subst hi
        rw [Function.update_self] at hw
        rcases List.mem_append.mp hw with hw | hw
        · exact h.openBatch _ w hw
        · exact (List.mem_singleton.mp hw).trans he
      · rw [Function.update_of_ne hi] at hw
        exact h.openBatch i w hw
    · exact h.closed

theorem Book.Uniform.putAll {c : Nat} {b : Book ι} (h : b.Uniform P c) {l : List (ι × Nat)}
    (hl : ∀ e ∈ l, e.2 = c) : (b.putAll P l).Uniform P c := by
  induction l generalizing b with
  | nil => exact h
  | cons e l ih =>
    exact ih (h.put (hl e List.mem_cons_self)) (fun e' he' => hl e' (List.mem_cons_of_mem e he'))

end Batches
