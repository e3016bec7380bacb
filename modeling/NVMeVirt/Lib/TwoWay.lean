import Mathlib.Data.Finset.Card
import Mathlib.Logic.Function.Basic

/-!
# Two tables that invert each other

A forward table `fwd` takes keys to cells or to `null`, a backward table `bwd` takes live
cells to keys. `Paired` says that the two are inverse to each other between the bound keys
and the live cells. The domain `K` of keys and the set `live` of cells are parameters.
-/

namespace TwoWay
set_option autoImplicit false

universe u v
variable {κ : Type u} {α : Type v}

structure Paired (K : κ → Prop) (null : α) (fwd : κ → α) (live : α → Prop) (bwd : α → κ) : Prop where
  forward : ∀ k, K k → fwd k ≠ null → live (fwd k) ∧ bwd (fwd k) = k
  backward : ∀ a, live a → K (bwd a) ∧ fwd (bwd a) = a

variable {K : κ → Prop} {null : α} {fwd : κ → α} {live : α → Prop} {bwd : α → κ}

theorem Paired.inj (m : Paired K null fwd live bwd) {k k' : κ} (hk : K k) (hk' : K k')
    (hb : fwd k ≠ null) (he : fwd k = fwd k') : k = k' := by
  rw [← (m.forward k hk hb).2, ← (m.forward k' hk' (he ▸ hb)).2, he]

/-- Giving key `k` the new cell `q`; the cell it had before is no longer live. -/
theorem Paired.rebind [DecidableEq κ] (m : Paired K null fwd live bwd) {k : κ} {q : α} (hk : K k)
    (hq : ¬ live q) {live' : α → Prop} {bwd' : α → κ} (hq' : bwd' q = k)
    (hbwd : ∀ a, live a → a ≠ fwd k → bwd' a = bwd a)
    (hlive : ∀ a, live' a ↔ a = q ∨ live a ∧ a ≠ fwd k) :
    Paired K null (Function.update fwd k q) live' bwd' := by
  constructor
  · intro k' hk' hb
    by_cases hkk : k' = k
    · subst hkk
      rw [Function.update_self]
      exact ⟨(hlive q).mpr (Or.inl rfl), hq'⟩
    · rw [Function.update_of_ne hkk] at hb ⊢
      obtain ⟨hl, hback⟩ := m.forward k' hk' hb
      have hne : fwd k' ≠ fwd k := fun he => hkk (m.inj hk' hk hb he)
      exact ⟨(hlive _).mpr (Or.inr ⟨hl, hne⟩), (hbwd _ hl hne).trans hback⟩
  · intro a ha
    rcases (hlive a).mp ha with rfl | ⟨hl, hne⟩
    · rw [hq', Function.update_self]
      exact ⟨hk, rfl⟩
    · obtain ⟨hK, hfwd⟩ := m.backward a hl
      have hkk : bwd a ≠ k := by
        intro he
        rw [he] at hfwd
        exact hne hfwd.symm
      rw [hbwd a hl hne, Function.update_of_ne hkk]
      exact ⟨hK, hfwd⟩

/-- There are as many bound keys as live cells. -/
theorem Paired.card_eq (m : Paired K null fwd live bwd) (hnull : ¬ live null) {A : Finset κ}
    {B : Finset α} (hA : ∀ k, k ∈ A ↔ K k ∧ fwd k ≠ null) (hB : ∀ a, a ∈ B ↔ live a) :
    A.card = B.card := by
  apply Finset.card_bij (fun k _ => fwd k)
  · intro k hk
    obtain ⟨hK, hb⟩ := (hA k).mp hk
    exact (hB _).mpr (m.forward k hK hb).1
  · intro k hk k' hk' he
    obtain ⟨hK, hb⟩ := (hA k).mp hk
    exact m.inj hK ((hA k').mp hk').1 hb he
  · intro a ha
    have hl := (hB a).mp ha
    obtain ⟨hK, hfwd⟩ := m.backward a hl
    have hb : fwd (bwd a) ≠ null := by
      intro he
      rw [hfwd] at he
      exact hnull (he ▸ hl)
    exact ⟨bwd a, (hA _).mpr ⟨hK, hb⟩, hfwd⟩

end TwoWay
