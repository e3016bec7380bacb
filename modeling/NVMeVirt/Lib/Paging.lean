import Mathlib.Data.List.Range
import Mathlib.Tactic.Common

/-!
# Listing a table page by page

A cursor goes through the slots of a table and collects what some of them offer. A page has room for so
many items. When the next item has none, the cursor stays at its slot, and the next page begins there.
The pages one after the other are the list of all that is offered.
-/

namespace Paging
set_option autoImplicit false

variable {α : Type} {item : Nat → Option α} {n pos room cap fuel : Nat}

/-- What the slots from `pos` up to `n` offer, in order. -/
def pending (item : Nat → Option α) (n pos : Nat) : List α := (List.range' pos (n - pos)).filterMap item

def page (item : Nat → Option α) (n : Nat) : Nat → Nat → Nat → List α × Nat
  | 0, _, pos => ([], pos)
  | fuel + 1, room, pos =>
    if n ≤ pos then ([], pos)
    else
      match item pos with
      | none => page item n fuel room (pos + 1)
      | some a =>
        if room = 0 then ([], pos)
        else
          let (items, stop) := page item n fuel (room - 1) (pos + 1)
          (a :: items, stop)

/-- Pages of `cap` items until the cursor is at the end. -/
def pages (item : Nat → Option α) (n cap : Nat) : Nat → Nat → List (List α)
  | 0, _ => []
  | fuel + 1, pos =>
    let (items, stop) := page item n n cap pos
    if n ≤ stop then [items] else items :: pages item n cap fuel stop

theorem pending_end (h : n ≤ pos) : pending item n pos = [] := by
  unfold pending
  rw [Nat.sub_eq_zero_of_le h]
  rfl

theorem pending_step (h : pos < n) : pending item n pos = (item pos).toList ++ pending item n (pos + 1) := by
  unfold pending
  rw [show n - pos = (n - (pos + 1)) + 1 by omega, List.range'_succ]
  cases hi : item pos with
  | none => rw [List.filterMap_cons_none hi]; rfl
  | some a => rw [List.filterMap_cons_some hi]; rfl

theorem page_end (h : n ≤ pos) : page item n fuel room pos = ([], pos) := by
  cases fuel with
  | zero => rfl
  | succ fuel => exact if_pos h

theorem page_skip (hpos : pos < n) (hitem : item pos = none) :
    page item n (fuel + 1) room pos = page item n fuel room (pos + 1) := by
  rw [page, if_neg (Nat.not_le.mpr hpos), hitem]

theorem page_full {a : α} (hpos : pos < n) (hitem : item pos = some a) :
    page item n (fuel + 1) 0 pos = ([], pos) := by
  rw [page, if_neg (Nat.not_le.mpr hpos), hitem]
  rfl

theorem page_take {a : α} (hpos : pos < n) (hitem : item pos = some a) :
    page item n (fuel + 1) (room + 1) pos =
      (a :: (page item n fuel room (pos + 1)).1, (page item n fuel room (pos + 1)).2) := by
  rw [page, if_neg (Nat.not_le.mpr hpos), hitem]
  rfl

theorem page_induct {P : Nat → Nat → Nat → List α × Nat → Prop} (zero : ∀ room pos, P 0 room pos ([], pos))
    (ended : ∀ fuel room pos, n ≤ pos → P (fuel + 1) room pos ([], pos))
    (skip : ∀ fuel room pos r, pos < n → item pos = none → P fuel room (pos + 1) r → P (fuel + 1) room pos r)
    (full : ∀ fuel pos a, pos < n → item pos = some a → P (fuel + 1) 0 pos ([], pos))
    (take : ∀ fuel room pos a r, pos < n → item pos = some a → P fuel room (pos + 1) r →
      P (fuel + 1) (room + 1) pos (a :: r.1, r.2)) (fuel room pos : Nat) :
    P fuel room pos (page item n fuel room pos) := by
  induction fuel generalizing room pos with
  | zero => exact zero room pos
  | succ fuel ih =>
    rcases Nat.lt_or_ge pos n with hlt | hge
    · cases hitem : item pos with
      | none =>
        rw [page_skip hlt hitem]
        exact skip _ _ _ _ hlt hitem (ih room (pos + 1))
      | some a =>
        cases room with
        | zero =>
          rw [page_full hlt hitem]
          exact full _ _ _ hlt hitem
        | succ room =>
          rw [page_take hlt hitem]
          exact take _ _ _ _ _ hlt hitem (ih room (pos + 1))
    · rw [page_end hge]
      exact ended _ _ _ hge

/-- Nothing is left out and nothing comes twice. -/
theorem page_pending (fuel room pos : Nat) : pending item n pos =
    (page item n fuel room pos).1 ++ pending item n (page item n fuel room pos).2 := by
  apply page_induct (P := fun _ _ pos r => pending item n pos = r.1 ++ pending item n r.2)
  · exact fun _ _ => rfl
  · exact fun _ _ _ _ => rfl
  · intro _ _ pos r hlt hitem ih
    rw [pending_step hlt, hitem]
    exact ih
  · exact fun _ _ _ _ _ => rfl
  · intro _ _ pos a r hlt hitem ih
    rw [pending_step hlt, hitem]
    exact congrArg _ ih

/-- The cursor goes forward and not behind the end. -/
theorem page_stop (fuel room pos : Nat) (h : pos ≤ n) :
    pos ≤ (page item n fuel room pos).2 ∧ (page item n fuel room pos).2 ≤ n := by
  revert h
  apply page_induct (P := fun _ _ pos r => pos ≤ n → pos ≤ r.2 ∧ r.2 ≤ n)
  · exact fun _ _ h => ⟨Nat.le_refl _, h⟩
  · exact fun _ _ _ _ h => ⟨Nat.le_refl _, h⟩
  · intro _ _ pos r hlt _ ih _
    obtain ⟨hle, hend⟩ := ih hlt
    exact ⟨Nat.le_of_succ_le hle, hend⟩
  · exact fun _ _ _ _ _ h => ⟨Nat.le_refl _, h⟩
  · intro _ _ pos _ r hlt _ ih _
    obtain ⟨hle, hend⟩ := ih hlt
    exact ⟨Nat.le_of_succ_le hle, hend⟩

theorem page_lt (hfuel : 0 < fuel) (hroom : 0 < room) (hpos : pos < n) :
    pos < (page item n fuel room pos).2 := by
  obtain ⟨fuel, rfl⟩ := Nat.exists_eq_add_of_le' hfuel
  obtain ⟨room, rfl⟩ := Nat.exists_eq_add_of_le' hroom
  cases hitem : item pos with
  | none =>
    rw [page_skip hpos hitem]
    exact (page_stop fuel (room + 1) (pos + 1) hpos).1
  | some a =>
    rw [page_take hpos hitem]
    exact (page_stop fuel room (pos + 1) hpos).1

/-- The pages list what is left, and they come to an end. -/
theorem pages_flatten (hcap : 0 < cap) (hpos : pos < n) (hfuel : n ≤ pos + fuel) :
    (pages item n cap fuel pos).flatten = pending item n pos := by
  induction fuel generalizing pos with
  | zero => omega
  | succ fuel ih =>
    have hlt : pos < (page item n n cap pos).2 := page_lt (by omega) hcap hpos
    rw [page_pending n cap pos, pages]
    dsimp only
    split
    · rename_i hend
      rw [pending_end hend]
      simp
    · rename_i hend
      rw [List.flatten_cons, ih (by omega) (by omega)]

end Paging
