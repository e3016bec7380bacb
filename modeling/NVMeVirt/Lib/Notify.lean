import Mathlib.Logic.Function.Basic
import Mathlib.Tactic.Common

/-!
# A flag between those who post and those who notify

Posting sets a flag. A notifier that gets the lock looks at the flag, takes it down if it is up, and
only then gives a notification, which covers all that has been posted by then. Posting takes no part
in the lock. Nothing posted can be missed: what no notification has covered yet is still announced by
the flag, or by a notifier that has taken the flag down and not notified yet.
-/

namespace Notify
set_option autoImplicit false

universe u
variable {ω : Type u}

/-- Where a notifier is between taking the lock and giving it back. -/
inductive Stage where
  | away
  | locked
  | seen
  | cleared
  | leaving
  deriving Repr, DecidableEq

structure State (ω : Type u) where
  flag : Bool
  lock : Option ω
  stage : ω → Stage
  posted : Nat
  /-- What has been posted since the last notification. -/
  fresh : Nat
  told : Nat

def State.goto [DecidableEq ω] (s : State ω) (w : ω) (stage : Stage) : State ω :=
  { s with stage := Function.update s.stage w stage }

def Stage.owes : Stage → Nat
  | .cleared => 1
  | _ => 0

/-- 1 when the holder of the lock has taken the flag down and not notified yet. -/
def State.owed (s : State ω) : Nat := s.lock.elim 0 (fun w => (s.stage w).owes)

inductive Step [DecidableEq ω] : State ω → State ω → Prop where
  | post {s : State ω} : Step s { s with flag := true, posted := s.posted + 1, fresh := s.fresh + 1 }
  | enter {s : State ω} {w : ω} (hw : s.stage w = .away) (h : s.lock = none) :
      Step s ({ s with lock := some w }.goto w .locked)
  | see {s : State ω} {w : ω} (hw : s.stage w = .locked) (h : s.flag = true) : Step s (s.goto w .seen)
  | pass {s : State ω} {w : ω} (hw : s.stage w = .locked) (h : s.flag = false) : Step s (s.goto w .leaving)
  | clear {s : State ω} {w : ω} (hw : s.stage w = .seen) : Step s ({ s with flag := false }.goto w .cleared)
  | tell {s : State ω} {w : ω} (hw : s.stage w = .cleared) :
      Step s ({ s with fresh := 0, told := s.told + 1 }.goto w .leaving)
  | leave {s : State ω} {w : ω} (hw : s.stage w = .leaving) : Step s ({ s with lock := none }.goto w .away)

structure Inv (s : State ω) : Prop where
  holder : ∀ w, s.stage w ≠ .away ↔ s.lock = some w
  seen : ∀ w, s.stage w = .seen → s.flag = true
  announced : 0 < s.fresh → s.flag = true ∨ 0 < s.owed
  count : s.told + s.flag.toNat + s.owed ≤ s.posted

variable {s s' : State ω} {w w' : ω} {stage : Stage}

theorem owed_eq (h : s.lock = some w) : s.owed = (s.stage w).owes := by
  unfold State.owed
  rw [h, Option.elim_some]

theorem Inv.alone (k : Inv s) (h : s.stage w ≠ .away) (h' : s.stage w' ≠ .away) : w = w' :=
  Option.some.inj (((k.holder w).mp h).symm.trans ((k.holder w').mp h'))

/-- With the lock free, the flag is up if anything has been posted since the last notification. -/
theorem Inv.free (k : Inv s) (h : s.lock = none) (hf : s.flag = false) : s.fresh = 0 := by
  have howed : s.owed = 0 := by
    unfold State.owed
    rw [h, Option.elim_none]
  by_contra hne
  rcases k.announced (Nat.pos_of_ne_zero hne) with ht | ho
  · rw [hf] at ht
    cases ht
  · omega

/-- What no notification has covered is announced by the flag, or its notifier is on the way. -/
theorem Inv.pending (k : Inv s) (h : 0 < s.fresh) : s.flag = true ∨ ∃ w, s.stage w = .cleared := by
  rcases k.announced h with hf | ho
  · exact Or.inl hf
  · right
    unfold State.owed at ho
    cases hl : s.lock with
    | none =>
      rw [hl] at ho
      exact absurd ho (Nat.lt_irrefl 0)
    | some w =>
      refine ⟨w, ?_⟩
      rw [hl, Option.elim_some] at ho
      cases hs : s.stage w with
      | cleared => rfl
      | away | locked | seen | leaving =>
        rw [hs] at ho
        exact absurd ho (Nat.lt_irrefl 0)

variable [DecidableEq ω]

theorem owed_goto (h : s.lock = some w) (stage : Stage) :
    (s.goto w stage).owed = stage.owes := by
  unfold State.owed State.goto
  dsimp only
  rw [h, Option.elim_some, Function.update_self]

/-- The holder of the lock moves from one stage to the next. -/
theorem Inv.goto (k : Inv s) (h : s.lock = some w) (hne : stage ≠ .away) {f : Bool} {n m : Nat}
    (hseen : stage = .seen → f = true) (hann : 0 < n → f = true ∨ stage = .cleared)
    (hcount : m + f.toNat + stage.owes ≤ s.posted) :
    Inv ({ s with flag := f, fresh := n, told := m }.goto w stage) := by
  have howed := owed_goto (s := { s with flag := f, fresh := n, told := m }) h stage
  refine ⟨?_, ?_, ?_, ?_⟩
  · intro w'
    change Function.update s.stage w stage w' ≠ .away ↔ s.lock = some w'
    by_cases hw : w' = w
    · rw [hw, Function.update_self]
      exact ⟨fun _ => h, fun _ => hne⟩
    · rw [Function.update_of_ne hw]
      exact k.holder w'
  · intro w' hs
    change Function.update s.stage w stage w' = .seen at hs
    change f = true
    by_cases hw : w' = w
    · rw [hw, Function.update_self] at hs
      exact hseen hs
    · rw [Function.update_of_ne hw] at hs
      have hother := (k.holder w').mp (by rw [hs]; decide)
      exact absurd (Option.some.inj (hother.symm.trans h)) hw
  · intro hpos
    rcases hann hpos with hf | hc
    · exact Or.inl hf
    · right
      rw [howed, hc]
      exact Nat.one_pos
  · rw [howed]
    exact hcount

theorem Inv.step (k : Inv s) (h : Step s s') : Inv s' := by
  cases h with
  | post =>
    refine ⟨k.holder, fun _ _ => rfl, fun _ => Or.inl rfl, ?_⟩
    have hc := k.count
    have ho : State.owed { s with flag := true, posted := s.posted + 1, fresh := s.fresh + 1 } = s.owed := rfl
    rw [ho]
    change s.told + 1 + s.owed ≤ s.posted + 1
    omega
  | @enter w hw h =>
    have hc := k.count
    have hnone : ∀ w', s.stage w' = .away := by
      intro w'
      by_contra hne
      rw [(k.holder w').mp hne] at h
      cases h
    have howed := owed_goto (s := { s with lock := some w }) (w := w) rfl .locked
    refine ⟨?_, ?_, ?_, ?_⟩
    · intro w'
      change Function.update s.stage w .locked w' ≠ .away ↔ some w = some w'
      by_cases hww : w' = w
      · rw [hww, Function.update_self]
        exact ⟨fun _ => rfl, fun _ => by decide⟩
      · rw [Function.update_of_ne hww, hnone w']
        exact ⟨fun hne => absurd rfl hne, fun he => absurd (Option.some.inj he).symm hww⟩
    · intro w' hs
      change Function.update s.stage w .locked w' = .seen at hs
      by_cases hww : w' = w
      · rw [hww, Function.update_self] at hs
        cases hs
      · rw [Function.update_of_ne hww, hnone w'] at hs
        cases hs
    · intro hpos
      left
      change s.flag = true
      by_contra hf
      have := k.free h (Bool.eq_false_iff.mpr hf)
      change 0 < s.fresh at hpos
      omega
    · rw [howed]
      change s.told + s.flag.toNat + 0 ≤ s.posted
      omega
  | @see w hw h =>
    have hl := (k.holder w).mp (by rw [hw]; decide)
    have hc := k.count
    exact k.goto hl (by decide) (fun _ => h) (fun _ => Or.inl h) (by simp [Stage.owes]; omega)
  | @pass w hw h =>
    have hl := (k.holder w).mp (by rw [hw]; decide)
    have hc := k.count
    refine k.goto hl (by decide) (fun hs => by cases hs) (fun hpos => ?_) (by simp [Stage.owes]; omega)
    rcases k.announced hpos with hf | ho
    · exact Or.inl hf
    · rw [owed_eq hl, hw] at ho
      exact absurd ho (Nat.lt_irrefl 0)
  | @clear w hw =>
    have hl := (k.holder w).mp (by rw [hw]; decide)
    have hf := k.seen w hw
    have hc := k.count
    rw [hf] at hc
    exact k.goto hl (by decide) (fun hs => by cases hs) (fun _ => Or.inr rfl)
      (by simp [Stage.owes] at hc ⊢; omega)
  | @tell w hw =>
    have hl := (k.holder w).mp (by rw [hw]; decide)
    have hc := k.count
    have ho : s.owed = 1 := by rw [owed_eq hl, hw]; rfl
    refine k.goto hl (by decide) (fun hs => by cases hs) (fun hpos => absurd hpos (Nat.lt_irrefl 0)) ?_
    change _ + _ + 0 ≤ _
    omega
  | @leave w hw =>
    have hl := (k.holder w).mp (by rw [hw]; decide)
    have ho : s.owed = 0 := by rw [owed_eq hl, hw]; rfl
    have hc := k.count
    refine ⟨?_, ?_, ?_, ?_⟩
    · intro w'
      change Function.update s.stage w .away w' ≠ .away ↔ none = some w'
      refine ⟨fun hne => ?_, fun he => nomatch he⟩
      by_cases hww : w' = w
      · rw [hww, Function.update_self] at hne
        exact absurd rfl hne
      · rw [Function.update_of_ne hww] at hne
        exact absurd (Option.some.inj (((k.holder w').mp hne).symm.trans hl)) hww
    · intro w' hs
      change Function.update s.stage w .away w' = .seen at hs
      by_cases hww : w' = w
      · rw [hww, Function.update_self] at hs
        cases hs
      · rw [Function.update_of_ne hww] at hs
        exact k.seen w' hs
    · intro hpos
      rcases k.announced hpos with hf | hz
      · exact Or.inl hf
      · omega
    · change s.told + s.flag.toNat + 0 ≤ s.posted
      omega

/-- A system whose steps are steps of the protocol, or none of its business, keeps the invariant. -/
theorem Inv.simulated {t : State ω} (k : Inv s) (h : Step s t ∨ t = s) : Inv t := by
  rcases h with hs | rfl
  · exact k.step hs
  · exact k

theorem goto_self (h : s.stage w = stage) : s.goto w stage = s := by
  unfold State.goto
  rw [← h, Function.update_eq_self]

end Notify
