import Mathlib.Data.Finset.Card
import Mathlib.Logic.Function.Basic
import Mathlib.Order.Lattice
import Mathlib.Tactic.Common

/-!
# Bags with priorities

What a priority queue is for: a set of elements, a priority for every element, and a way to get at
one of least priority. Which of several least elements is given is left open. The priority of an
element outside the bag may be set by its owner; inside it changes through the bag.
-/

namespace Bags
set_option autoImplicit false

universe u v
variable {α : Type u} {β : Type v}

structure Bag (α : Type u) (β : Type v) where
  members : Finset α
  pri : α → β

inductive Request (α : Type u) (β : Type v) where
  | insert (x : α)
  | remove (x : α)
  | changePriority (x : α) (p : β)
  | setPriority (x : α) (p : β)
  | pop
  | peek

/-- A request and the element that was given back. -/
structure Event (α : Type u) (β : Type v) where
  request : Request α β
  answer : Option α

section Counts

variable [DecidableEq α]

def Event.enters (x : α) (e : Event α β) : Bool :=
  match e.request with
  | .insert y => y = x
  | _ => false

def Event.leaves (x : α) (e : Event α β) : Bool :=
  match e.request with
  | .remove y => y = x
  | .pop => e.answer = some x
  | _ => false

def comings (es : List (Event α β)) (x : α) : Nat := es.countP (Event.enters x)

def goings (es : List (Event α β)) (x : α) : Nat := es.countP (Event.leaves x)

def present (b : Bag α β) (x : α) : Nat := if x ∈ b.members then 1 else 0

theorem present_insert {p : α → β} {E : Finset α} {y : α} (hy : y ∉ E) (x : α) :
    present ⟨insert y E, p⟩ x = present ⟨E, p⟩ x + if y = x then 1 else 0 := by
  unfold present
  by_cases hyx : y = x
  · subst hyx
    simp [hy]
  · simp [hyx, Ne.symm hyx]

theorem present_erase {p : α → β} {E : Finset α} {y : α} (hy : y ∈ E) (x : α) :
    present ⟨E.erase y, p⟩ x + (if y = x then 1 else 0) = present ⟨E, p⟩ x := by
  unfold present
  by_cases hyx : y = x
  · subst hyx
    simp [hy]
  · simp [hyx, Ne.symm hyx]

end Counts

variable [LinearOrder β]

def Bag.Least (b : Bag α β) (x : α) : Prop := x ∈ b.members ∧ ∀ y ∈ b.members, b.pri x ≤ b.pri y

def Bag.Gives (b : Bag α β) : Option α → Prop
  | none => b.members = ∅
  | some x => b.Least x

variable [DecidableEq α]

/-- The requests that the users of a bag may make. -/
def Bag.Permits (b : Bag α β) : Request α β → Prop
  | .insert x => x ∉ b.members
  | .remove x => x ∈ b.members
  | .changePriority x _ => x ∈ b.members
  | .setPriority x _ => x ∉ b.members
  | .pop => True
  | .peek => True

inductive Step (b : Bag α β) : Event α β → Bag α β → Prop where
  | insert {x : α} (hx : x ∉ b.members) : Step b ⟨.insert x, none⟩ ⟨insert x b.members, b.pri⟩
  | remove {x : α} (hx : x ∈ b.members) : Step b ⟨.remove x, none⟩ ⟨b.members.erase x, b.pri⟩
  | changePriority {x : α} {p : β} (hx : x ∈ b.members) :
      Step b ⟨.changePriority x p, none⟩ ⟨b.members, Function.update b.pri x p⟩
  | setPriority {x : α} {p : β} (hx : x ∉ b.members) :
      Step b ⟨.setPriority x p, none⟩ ⟨b.members, Function.update b.pri x p⟩
  | popEmpty (h : b.Gives none) : Step b ⟨.pop, none⟩ b
  | pop {x : α} (h : b.Gives (some x)) : Step b ⟨.pop, some x⟩ ⟨b.members.erase x, b.pri⟩
  | peek {o : Option α} (h : b.Gives o) : Step b ⟨.peek, o⟩ b

inductive Run (b : Bag α β) : List (Event α β) → Bag α β → Prop where
  | nil : Run b [] b
  | snoc {es : List (Event α β)} {e : Event α β} {c c' : Bag α β} (h : Run b es c) (hs : Step c e c') :
      Run b (es ++ [e]) c'

variable {b c c' : Bag α β} {e : Event α β} {es : List (Event α β)}

theorem Run.cons (hs : Step b e c) (h : Run c es c') : Run b (e :: es) c' := by
  induction h with
  | nil => exact Run.snoc Run.nil hs
  | snoc _ hstep ih => exact Run.snoc ih hstep

theorem Step.census (h : Step b e c) (x : α) :
    present c x + (if e.leaves x then 1 else 0) = present b x + if e.enters x then 1 else 0 := by
  cases h with
  | insert hx => simpa [Event.enters, Event.leaves] using present_insert hx x
  | remove hx => simpa [Event.enters, Event.leaves] using present_erase hx x
  | changePriority hx => rfl
  | setPriority hx => rfl
  | popEmpty h => simp [Event.enters, Event.leaves]
  | pop h => simpa [Event.enters, Event.leaves] using present_erase h.1 x
  | peek h => rfl

/-- Each element has come in as often as it has gone out, and once more if it is in the bag. -/
theorem Run.census (h : Run b es c) (x : α) :
    present c x + goings es x = present b x + comings es x := by
  induction h with
  | nil => rfl
  | @snoc es e c c' h hs ih =>
    have hstep := hs.census x
    have hl : goings (es ++ [e]) x = goings es x + if e.leaves x then 1 else 0 := by
      unfold goings
      rw [List.countP_append, List.countP_singleton]
    have he : comings (es ++ [e]) x = comings es x + if e.enters x then 1 else 0 := by
      unfold comings
      rw [List.countP_append, List.countP_singleton]
    omega

def pops (xs : List α) : List (Event α β) := xs.map (fun x => ⟨.pop, some x⟩)

structure Drained (b : Bag α β) (xs : List α) (c : Bag α β) : Prop where
  pri : c.pri = b.pri
  nodup : xs.Nodup
  mem : ∀ x, x ∈ b.members ↔ x ∈ xs ∨ x ∈ c.members
  gone : ∀ x ∈ xs, x ∉ c.members
  sorted : xs.Pairwise (fun x y => b.pri x ≤ b.pri y)
  below : ∀ x ∈ xs, ∀ y ∈ c.members, b.pri x ≤ b.pri y

theorem Drained.pop {xs : List α} {x : α} (h : Drained b xs c) (hx : c.Least x) :
    Drained b (xs ++ [x]) ⟨c.members.erase x, c.pri⟩ := by
  refine ⟨h.pri, ?_, ?_, ?_, ?_, ?_⟩
  · rw [List.nodup_append]
    refine ⟨h.nodup, List.nodup_singleton x, ?_⟩
    intro y hy z hz
    obtain rfl := List.mem_singleton.mp hz
    rintro rfl
    exact h.gone y hy hx.1
  · intro y
    rw [h.mem, List.mem_append, List.mem_singleton, Finset.mem_erase]
    constructor
    · rintro (hy | hy)
      · exact Or.inl (Or.inl hy)
      · by_cases hyx : y = x
        · exact Or.inl (Or.inr hyx)
        · exact Or.inr ⟨hyx, hy⟩
    · rintro ((hy | rfl) | hy)
      · exact Or.inl hy
      · exact Or.inr hx.1
      · exact Or.inr hy.2
  · intro y hy
    rcases List.mem_append.mp hy with hy | hy
    · exact fun hc => h.gone y hy (Finset.mem_of_mem_erase hc)
    · obtain rfl := List.mem_singleton.mp hy
      exact Finset.notMem_erase y _
  · rw [List.pairwise_append]
    refine ⟨h.sorted, List.pairwise_singleton _ _, ?_⟩
    intro y hy z hz
    obtain rfl := List.mem_singleton.mp hz
    exact h.below y hy z hx.1
  · intro y hy z hz
    have hz' := Finset.mem_of_mem_erase hz
    rcases List.mem_append.mp hy with hy | hy
    · exact h.below y hy z hz'
    · obtain rfl := List.mem_singleton.mp hy
      rw [← h.pri]
      exact hx.2 z hz'

/-- Popping over and over gives the elements in the order of their priorities, each once. -/
theorem Run.drained {xs : List α} (h : Run b (pops xs) c) : Drained b xs c := by
  generalize hes : pops xs = es at h
  induction h generalizing xs with
  | nil =>
    obtain rfl := List.map_eq_nil_iff.mp hes
    exact ⟨rfl, List.nodup_nil, fun x => by simp, fun x hx => absurd hx List.not_mem_nil,
      List.Pairwise.nil, fun x hx => absurd hx List.not_mem_nil⟩
  | snoc h hs ih =>
    obtain ⟨ys, zs, rfl, hys, hzs⟩ := List.map_eq_append_iff.mp hes
    obtain ⟨x, rfl, hx⟩ := List.map_eq_singleton_iff.mp hzs
    subst hx
    cases hs with
    | pop hx => exact (ih hys).pop hx

end Bags
