import Mathlib.Order.Lattice
import Mathlib.Data.List.Pairwise
import Mathlib.Order.MinMax
import Mathlib.Tactic.Common

/-!
# Lists sorted up to a floor

Keys at or below a floor count as equal. A list stays sorted in this sense when the floor rises,
and when an element goes in behind the last one that is not above it. Stamps that grow with
every insertion then follow the list wherever keys are equal.
-/

namespace Floor
set_option autoImplicit false

universe u v
variable {α : Type u} {β : Type v}

/-- Among equal keys the stamps grow along the list. -/
def Stamped (key : α → β) (stamp : α → Nat) (l : List α) : Prop :=
  l.Pairwise fun i j => key i = key j → stamp i < stamp j

variable {key key' : α → β} {stamp stamp' : α → Nat} {before after l : List α} {x : α}

theorem Stamped.congr (h : Stamped key stamp l) (hk : ∀ i ∈ l, key' i = key i)
    (hs : ∀ i ∈ l, stamp' i = stamp i) : Stamped key' stamp' l := by
  refine List.Pairwise.imp_of_mem ?_ h
  intro i j hi hj hij
  rw [hk i hi, hk j hj, hs i hi, hs j hj]
  exact hij

/-- An element goes in between two parts when it is related to both. -/
theorem pairwise_insert {r : α → α → Prop} (h : (before ++ after).Pairwise r)
    (hb : ∀ i ∈ before, r i x) (ha : ∀ j ∈ after, r x j) : (before ++ x :: after).Pairwise r := by
  obtain ⟨hbefore, hafter, hcross⟩ := List.pairwise_append.mp h
  refine List.pairwise_append.mpr ⟨hbefore, List.pairwise_cons.mpr ⟨ha, hafter⟩, ?_⟩
  intro i hi j hj
  rcases List.mem_cons.mp hj with rfl | hj
  · exact hb i hi
  · exact hcross i hi j hj

variable [LinearOrder β]

/-- `a` is at most `b`, up to `floor`. -/
def UpTo (floor a b : β) : Prop := a ≤ max b floor

variable {floor floor' a b c : β}

theorem UpTo.of_le (h : a ≤ b) : UpTo floor a b := le_max_of_le_left h

theorem UpTo.trans (hab : UpTo floor a b) (hbc : UpTo floor b c) : UpTo floor a c :=
  le_trans hab (max_le hbc (le_max_right c floor))

theorem UpTo.mono (h : UpTo floor a b) (hf : floor ≤ floor') : UpTo floor' a b :=
  le_trans h (max_le_max_left b hf)

theorem lt_of_not_upTo (h : ¬ UpTo floor a b) : b < a :=
  lt_of_le_of_lt (le_max_left b floor) (not_le.mp h)

def Sorted (floor : β) (key : α → β) (l : List α) : Prop :=
  l.Pairwise fun i j => UpTo floor (key i) (key j)

theorem Sorted.mono (h : Sorted floor key l) (hf : floor ≤ floor') : Sorted floor' key l :=
  List.Pairwise.imp (fun hij => hij.mono hf) h

theorem Sorted.congr (h : Sorted floor key l) (hk : ∀ i ∈ l, key' i = key i) : Sorted floor key' l := by
  refine List.Pairwise.imp_of_mem ?_ h
  intro i j hi hj hij
  rw [hk i hi, hk j hj]
  exact hij

theorem Sorted.le_last (h : Sorted floor key l) {z : α} (hz : z ∈ l.getLast?) :
    ∀ i ∈ l, UpTo floor (key i) (key z) := by
  obtain ⟨init, rfl⟩ := List.getLast?_eq_some_iff.mp hz
  intro i hi
  rcases List.mem_append.mp hi with hi | hi
  · exact (List.pairwise_append.mp h).2.2 i hi z (by simp)
  · obtain rfl := List.mem_singleton.mp hi
    exact UpTo.of_le (le_refl (key i))

/-- Insertion behind the last element that is not above the new one. -/
theorem Sorted.insert (h : Sorted floor key (before ++ after))
    (hlast : ∀ z ∈ before.getLast?, UpTo floor (key z) (key x))
    (hafter : ∀ j ∈ after, ¬ UpTo floor (key j) (key x)) : Sorted floor key (before ++ x :: after) := by
  refine pairwise_insert h ?_ ?_
  · intro i hi
    have hne : before ≠ [] := List.ne_nil_of_mem hi
    have hz : before.getLast hne ∈ before.getLast? := by simp [List.getLast?_eq_some_getLast hne]
    have hsorted : Sorted floor key before := (List.pairwise_append.mp h).1
    exact (hsorted.le_last hz i hi).trans (hlast _ hz)
  · intro j hj
    exact UpTo.of_le (le_of_lt (lt_of_not_upTo (hafter j hj)))

/-- The youngest of equal elements goes in behind the others. -/
theorem Stamped.insert (h : Stamped key stamp (before ++ after))
    (hyoung : ∀ i ∈ before, stamp i < stamp x)
    (hafter : ∀ j ∈ after, ¬ UpTo floor (key j) (key x)) : Stamped key stamp (before ++ x :: after) := by
  refine pairwise_insert h (fun i hi _ => hyoung i hi) ?_
  intro j hj he
  exact absurd he (ne_of_lt (lt_of_not_upTo (hafter j hj)))

end Floor
