import Mathlib.Data.List.Forall2
import Mathlib.Data.List.Nodup
import Mathlib.Data.List.Range
import Mathlib.Tactic.Common

/-!
# Index chains

Lists threaded through an array of links. `Path f a l e` says that following `f` from `a`
passes the cells `l` in order and arrives at `e`. A doubly linked list is a path of `next`
from its head and a path of `prev` from its tail over the reversed cells.
-/

namespace Chains
set_option autoImplicit false

universe u
variable {α : Type u}

def Path (f : α → α) : α → List α → α → Prop
  | a, [], e => a = e
  | a, x :: l, e => a = x ∧ Path f (f x) l e

variable {f g : α → α} {a b e x y : α} {l m : List α}

@[simp] theorem path_nil : Path f a [] e ↔ a = e := Iff.rfl

@[simp] theorem path_cons : Path f a (x :: l) e ↔ a = x ∧ Path f (f x) l e := Iff.rfl

theorem path_append : Path f a (l ++ m) e ↔ ∃ b, Path f a l b ∧ Path f b m e := by
  induction l generalizing a with
  | nil => simp
  | cons x l ih => simp [ih, and_assoc]

theorem path_snoc : Path f a (l ++ [x]) e ↔ Path f a l x ∧ f x = e := by
  simp [path_append]

/-- Only the links of the cells passed matter. -/
theorem Path.congr (h : Path f a l e) (hfg : ∀ x ∈ l, f x = g x) : Path g a l e := by
  induction l generalizing a with
  | nil => exact h
  | cons x l ih =>
    refine ⟨h.1, ?_⟩
    rw [← hfg x List.mem_cons_self]
    exact ih h.2 (fun y hy => hfg y (List.mem_cons_of_mem x hy))

theorem Path.update [DecidableEq α] (h : Path f a l e) (hx : x ∉ l) :
    Path (Function.update f x y) a l e := by
  apply h.congr
  intro z hz
  rw [Function.update_of_ne]
  exact fun hzx => hx (hzx ▸ hz)

theorem Path.redirect [DecidableEq α] (h : Path f a (l ++ [x]) e) (hx : x ∉ l) (y : α) :
    Path (Function.update f x y) a (l ++ [x]) y := by
  rw [path_snoc] at h ⊢
  exact ⟨h.1.update hx, Function.update_self x y f⟩

/-- A cell that already points where `x` does goes in behind `x`. -/
theorem Path.insert [DecidableEq α] (h : Path f a (l ++ x :: m) e) (hl : x ∉ l) (hm : x ∉ m)
    (hyx : y ≠ x) (hy : f y = f x) :
    Path (Function.update f x y) a (l ++ x :: y :: m) e := by
  obtain ⟨b, hb, rfl, hrest⟩ := path_append.mp h
  refine path_append.mpr ⟨b, hb.update hl, rfl, ?_⟩
  rw [Function.update_self, path_cons, Function.update_of_ne hyx, hy]
  exact ⟨rfl, hrest.update hm⟩

/-- The end and the start determine the cells when the end is not one of them. -/
theorem Path.unique (h : Path f a l e) (h' : Path f a m e) (hl : e ∉ l) (hm : e ∉ m) : l = m := by
  induction l generalizing a m with
  | nil =>
    cases m with
    | nil => rfl
    | cons y m =>
      have hy : e = y := by rw [← h, h'.1]
      exact absurd (hy ▸ List.mem_cons_self) hm
  | cons x l ih =>
    cases m with
    | nil =>
      have hx : e = x := by rw [← h', h.1]
      exact absurd (hx ▸ List.mem_cons_self) hl
    | cons y m =>
      have hxy : x = y := by rw [← h.1, h'.1]
      subst hxy
      rw [ih h.2 h'.2 (List.not_mem_of_not_mem_cons hl) (List.not_mem_of_not_mem_cons hm)]

theorem Path.next_mem (h : Path f a l e) (hx : x ∈ l) : f x ∈ l ∨ f x = e := by
  induction l generalizing a with
  | nil => exact absurd hx List.not_mem_nil
  | cons y l ih =>
    rcases List.mem_cons.mp hx with rfl | hx
    · cases l with
      | nil => exact Or.inr h.2
      | cons z l =>
        have hz : f x = z := h.2.1
        exact Or.inl (by simp [hz])
    · rcases ih h.2 hx with hm | he
      · exact Or.inl (List.mem_cons_of_mem y hm)
      · exact Or.inr he

/-- The cells from `start` on, at most `n` of them, until the link `e`. -/
def walk [DecidableEq α] (f : α → α) (e : α) : Nat → α → List α
  | 0, _ => []
  | n + 1, a => if a = e then [] else a :: walk f e n (f a)

theorem Path.walk_eq [DecidableEq α] (h : Path f a l e) (he : e ∉ l) {n : Nat} (hn : l.length ≤ n) :
    walk f e n a = l := by
  induction l generalizing a n with
  | nil =>
    cases n with
    | zero => rfl
    | succ n =>
      have hae : a = e := h
      rw [walk, if_pos hae]
  | cons x l ih =>
    cases n with
    | zero => simp at hn
    | succ n =>
      obtain ⟨rfl, h⟩ := h
      have hne : a ≠ e := fun hae => he (hae ▸ List.mem_cons_self)
      have hn' : l.length ≤ n := by simpa using hn
      rw [walk, if_neg hne, ih h (List.not_mem_of_not_mem_cons he) hn']

/-- On a doubly linked list `g` goes back where `f` came from. -/
theorem Path.back (h : Path f a l e) (h' : Path g b l.reverse e) (he : e ∉ l) (hx : x ∈ l)
    (hy : y ∈ l) (hf : f x = y) : g y = x := by
  obtain ⟨p, q, rfl⟩ := List.append_of_mem hx
  obtain ⟨_, _, hq⟩ := path_append.mp h
  cases q with
  | nil =>
    have hye : y = e := by rw [← hf, hq.2]
    exact absurd (hye ▸ hy) he
  | cons z q =>
    have hyz : y = z := by rw [← hf, hq.2.1]
    subst hyz
    rw [show p ++ x :: y :: q = (p ++ [x]) ++ (y :: q) by simp, List.reverse_append,
      List.reverse_cons, List.append_assoc, List.reverse_append] at h'
    obtain ⟨_, _, h₁⟩ := path_append.mp h'
    exact h₁.2.1

theorem Path.inverse (h : Path f a l e) (h' : Path g b l.reverse e) (he : e ∉ l) (hx : x ∈ l)
    (hy : y ∈ l) : f x = y ↔ g y = x := by
  constructor
  · exact h.back h' he hx hy
  · have h'' : Path f a l.reverse.reverse e := by
      rw [List.reverse_reverse]
      exact h
    exact h'.back h'' (by simpa using he) (by simpa using hy) (by simpa using hx)

section InStep
universe v w
variable {β : Type v} {γ : Type w} {R : α → β → Prop} {S : β → γ → Prop} {T : α → γ → Prop}

theorem forall₂_trans {l : List α} {m : List β} {n : List γ} (h : ∀ a b c, R a b → S b c → T a c)
    (hr : List.Forall₂ R l m) (hs : List.Forall₂ S m n) : List.Forall₂ T l n := by
  induction hr generalizing n with
  | nil =>
    cases hs
    exact List.Forall₂.nil
  | cons hab _ ih =>
    cases hs with
    | cons hbc hs => exact List.Forall₂.cons (h _ _ _ hab hbc) (ih hs)

theorem forall₂_left {l : List α} {m : List β} {P : α → Prop} (h : ∀ a b, R a b → P a)
    (hr : List.Forall₂ R l m) : ∀ a ∈ l, P a := by
  induction hr with
  | nil => exact fun _ ha => absurd ha List.not_mem_nil
  | cons hab _ ih =>
    intro a ha
    rcases List.mem_cons.mp ha with rfl | ha
    · exact h _ _ hab
    · exact ih a ha

end InStep

end Chains
