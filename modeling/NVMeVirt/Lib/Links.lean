import Mathlib.Logic.Relation
import Mathlib.Data.Finset.Card
import Mathlib.Data.List.Chain
import Mathlib.Data.Finset.Range
import Mathlib.Tactic.Common

/-!
# Singly linked cells

Each cell has at most one link. A link counts only between cells in use: a free cell ends
the way, and a link into it comes back to life when the cell is used again. `Stamped` gives
each cell a time, and links lead to later cells.
-/

namespace Links
set_option autoImplicit false
open Relation

universe u
variable {α : Type u}

structure Cells (α : Type u) where
  live : α → Prop
  next : α → Option α

def Cells.Step (l : Cells α) (a b : α) : Prop := l.live a ∧ l.next a = some b ∧ l.live b

def Cells.Reach (l : Cells α) : α → α → Prop := ReflTransGen l.Step

/-- `b` lies on the way from `a` to `c`. -/
def Cells.Passes (l : Cells α) (a b c : α) : Prop := l.Reach a b ∧ l.Reach b c

def Cells.erase [DecidableEq α] (l : Cells α) (d : α) : Cells α where
  live := fun a => l.live a ∧ a ≠ d
  next := Function.update l.next d none

structure Stamped (l : Cells α) (stamp : α → Nat) (now : Nat) : Prop where
  past : ∀ a, stamp a < now
  later : ∀ {a b}, l.Step a b → stamp a < stamp b

variable {l m : Cells α} {stamp : α → Nat} {now : Nat} {a b c d : α}

theorem Cells.Step.unique (h : l.Step a b) (h' : l.Step a c) : b = c :=
  Option.some.inj (h.2.1.symm.trans h'.2.1)

theorem Cells.Reach.live (h : l.Reach a b) (hb : l.live b) : l.live a := by
  cases ReflTransGen.cases_head h with
  | inl heq => exact heq ▸ hb
  | inr hstep =>
    obtain ⟨_, hstep, _⟩ := hstep
    exact hstep.1

theorem Cells.Reach.mono (h : l.Reach a b) (hlm : ∀ x y, l.Step x y → m.Step x y) : m.Reach a b :=
  ReflTransGen.mono hlm _ _ h

theorem Cells.Reach.tail_of_step (h : l.Reach a c) (hstep : l.Step a b) (hne : a ≠ c) : l.Reach b c := by
  cases ReflTransGen.cases_head h with
  | inl heq => exact absurd heq hne
  | inr hfirst =>
    obtain ⟨x, hx, hrest⟩ := hfirst
    exact hx.unique hstep ▸ hrest

theorem Cells.reach_of_no_step (h : l.Reach a b) (hend : ∀ c, ¬ l.Step a c) : a = b := by
  cases ReflTransGen.cases_head h with
  | inl heq => exact heq
  | inr hfirst =>
    obtain ⟨x, hx, _⟩ := hfirst
    exact absurd hx (hend x)

theorem Stamped.le (hs : Stamped l stamp now) (h : l.Reach a b) : stamp a ≤ stamp b := by
  induction h with
  | refl => exact Nat.le_refl _
  | tail _ hstep ih => exact Nat.le_of_lt (Nat.lt_of_le_of_lt ih (hs.later hstep))

theorem Stamped.antisymm (hs : Stamped l stamp now) (h : l.Reach a b) (h' : l.Reach b a) : a = b := by
  cases ReflTransGen.cases_head h with
  | inl heq => exact heq
  | inr hfirst =>
    obtain ⟨x, hx, hxb⟩ := hfirst
    have h₁ := hs.later hx
    have h₂ := hs.le hxb
    have h₃ := hs.le h'
    omega

/-- A walk along the links meets no cell twice. -/
theorem Stamped.nodup (hs : Stamped l stamp now) {walk : List α} (h : walk.IsChain l.Step) : walk.Nodup := by
  have hlater : (walk.map stamp).IsChain (· < ·) := by
    apply List.isChain_map_of_isChain stamp _ h
    exact fun _ _ hstep => hs.later hstep
  have hne : (walk.map stamp).Nodup := hlater.pairwise.imp Nat.ne_of_lt
  exact hne.of_map stamp

section Erase
variable [DecidableEq α]

theorem Cells.erase_step : (l.erase d).Step a b ↔ l.Step a b ∧ a ≠ d ∧ b ≠ d := by
  unfold Cells.Step Cells.erase
  simp only
  by_cases ha : a = d
  · simp [ha]
  · rw [Function.update_of_ne ha]
    tauto

theorem Cells.reach_erase (h : l.Reach a b) (hd : ¬ l.Passes a d b) : (l.erase d).Reach a b := by
  induction h using ReflTransGen.head_induction_on with
  | refl => exact ReflTransGen.refl
  | head hstep hrest ih =>
    rename_i x y
    have hx : x ≠ d := by
      rintro rfl
      exact hd ⟨ReflTransGen.refl, ReflTransGen.head hstep hrest⟩
    have hy : y ≠ d := by
      rintro rfl
      exact hd ⟨ReflTransGen.single hstep, hrest⟩
    have hpass : ¬ l.Passes y d b := fun h => hd ⟨ReflTransGen.head hstep h.1, h.2⟩
    exact ReflTransGen.head (erase_step.mpr ⟨hstep, hx, hy⟩) (ih hpass)

/-- A freed cell cuts off what lies behind it. -/
theorem Stamped.not_reach_erase (hs : Stamped l stamp now) (hd : l.Passes a d b) (hne : b ≠ d) :
    ¬ (l.erase d).Reach a b := by
  intro h
  induction h using ReflTransGen.head_induction_on with
  | refl => exact hne (hs.antisymm hd.1 hd.2)
  | head hstep _ ih =>
    obtain ⟨hstep, hx, _⟩ := Cells.erase_step.mp hstep
    exact ih ⟨hd.1.tail_of_step hstep hx, hd.2⟩

theorem Stamped.erase (hs : Stamped l stamp now) : Stamped (l.erase d) stamp now where
  past := hs.past
  later := fun hstep => hs.later (Cells.erase_step.mp hstep).1

end Erase

/-- A cell comes into use that links to nothing. -/
theorem Stamped.fill [DecidableEq α] (hs : Stamped l stamp now) (hd : m.next d = none)
    (hold : ∀ {x y}, m.Step x y → y ≠ d → l.Step x y) :
    Stamped m (Function.update stamp d now) (now + 1) where
  past := by
    intro x
    have hx := hs.past x
    by_cases heq : x = d
    · rw [heq, Function.update_self]
      exact Nat.lt_succ_self now
    · rw [Function.update_of_ne heq]
      omega
  later := by
    intro x y hstep
    have hx : x ≠ d := by
      rintro rfl
      have := hstep.2.1
      rw [hd] at this
      cases this
    rw [Function.update_of_ne hx]
    by_cases hy : y = d
    · rw [hy, Function.update_self]
      exact hs.past x
    · rw [Function.update_of_ne hy]
      exact hs.later (hold hstep hy)

open Classical in
/-- The live cells among the first `n` that are not before `a`. -/
noncomputable def ahead (l : Cells Nat) (stamp : Nat → Nat) (n a : Nat) : Nat :=
  ((Finset.range n).filter (fun b => l.live b ∧ stamp a ≤ stamp b)).card

theorem ahead_le (l : Cells Nat) (stamp : Nat → Nat) (n a : Nat) : ahead l stamp n a ≤ n := by
  classical
  exact (Finset.card_filter_le _ _).trans_eq (Finset.card_range n)

theorem ahead_pos {l : Cells Nat} {stamp : Nat → Nat} {n a : Nat} (ha : a < n) (hl : l.live a) :
    0 < ahead l stamp n a := by
  classical
  apply Finset.card_pos.mpr
  exact ⟨a, Finset.mem_filter.mpr ⟨Finset.mem_range.mpr ha, hl, Nat.le_refl _⟩⟩

theorem Stamped.ahead_lt {l : Cells Nat} {stamp : Nat → Nat} {now n a b : Nat} (hs : Stamped l stamp now)
    (ha : a < n) (hstep : l.Step a b) : ahead l stamp n b < ahead l stamp n a := by
  classical
  have hlt := hs.later hstep
  apply Finset.card_lt_card
  refine Finset.ssubset_iff_of_subset ?_ |>.mpr ⟨a, ?_, ?_⟩
  · intro x hx
    simp only [Finset.mem_filter] at hx ⊢
    exact ⟨hx.1, hx.2.1, by omega⟩
  · simp only [Finset.mem_filter, Finset.mem_range]
    exact ⟨ha, hstep.1, Nat.le_refl _⟩
  · simp only [Finset.mem_filter]
    omega

end Links
