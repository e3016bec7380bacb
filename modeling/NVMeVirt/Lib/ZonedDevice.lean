import Mathlib.Logic.Function.Basic
import Mathlib.Tactic.Common

/-!
# A zoned block device

Zones of `cap` blocks that fill from the front. A zone has a condition and the number of blocks that
have been written; nothing is counted over the zones, so no condition of one zone hinders another.
The replies are all that a host sees.
-/

namespace ZonedDevice
set_option autoImplicit false

inductive Condition where
  | empty
  | implicit
  | explicit
  | closed
  | full
  deriving Repr, DecidableEq

structure Zone where
  cond : Condition
  filled : Nat
  deriving Repr, DecidableEq

inductive Reply where
  | success
  | invalidTransition
  | invalidOperation
  | invalidWrite
  | boundary
  | full
  deriving Repr, DecidableEq

inductive Action where
  | close
  | finish
  | open
  | reset
  | offline
  | flush
  deriving Repr, DecidableEq

inductive Command where
  | write (zone lba n : Nat)
  | append (zone n : Nat)
  | manage (zone : Nat) (action : Action)
  | manageAll (action : Action)
  deriving Repr, DecidableEq

structure Geometry where
  cap : Nat
  nr : Nat
  /-- The lengths that a write may have. -/
  unit : Nat → Bool

abbrev Device := Nat → Zone

def Zone.blank : Zone := ⟨.empty, 0⟩

/-- No zone goes out of use, and none has a random write area that could be flushed. -/
def Zone.act (z : Zone) : Action → Zone × Reply
  | .close => match z.cond with
    | .implicit | .explicit | .closed => ({ z with cond := .closed }, .success)
    | .empty | .full => (z, .invalidTransition)
  | .finish => ({ z with cond := .full }, .success)
  | .open => match z.cond with
    | .full => (z, .invalidTransition)
    | _ => ({ z with cond := .explicit }, .success)
  | .reset => (.blank, .success)
  | .offline => (z, .invalidTransition)
  | .flush => (z, .invalidOperation)

/-- The zone once `n` blocks have gone to its write pointer. -/
def Zone.advance (cap n : Nat) (z : Zone) : Zone where
  cond := if z.filled + n = cap then .full else if z.cond = .explicit then .explicit else .implicit
  filled := z.filled + n

/-- A write of `n` blocks at `lba` to the zone that begins at `base`. -/
def Zone.write (g : Geometry) (base lba n : Nat) (z : Zone) : Zone × Reply :=
  if g.unit n = false then (z, .invalidWrite)
  else if lba / g.cap ≠ (lba + n - 1) / g.cap then (z, .boundary)
  else if lba ≠ base + z.filled then (z, .invalidWrite)
  else if z.cond = .full then (z, .full)
  else (z.advance g.cap n, .success)

def Device.set (dev : Device) (zone : Nat) (r : Zone × Reply) : Device × Reply :=
  (Function.update dev zone r.1, r.2)

def Geometry.step (g : Geometry) (dev : Device) : Command → Device × Reply
  | .write zone lba n => dev.set zone ((dev zone).write g (zone * g.cap) lba n)
  | .append zone n =>
    dev.set zone ((dev zone).write g (zone * g.cap) (zone * g.cap + (dev zone).filled) n)
  | .manage zone action => dev.set zone ((dev zone).act action)
  | .manageAll action => (fun zone => if zone < g.nr then ((dev zone).act action).1 else dev zone, .success)

/-- The device after the commands, and its replies to them. -/
def Geometry.replay (g : Geometry) (dev : Device) : List Command → Device × List Reply
  | [] => (dev, [])
  | c :: cs =>
    let (dev, reply) := g.step dev c
    let (dev, replies) := g.replay dev cs
    (dev, reply :: replies)

variable {g : Geometry}

theorem replay_snoc (cs : List Command) (c : Command) (dev : Device) :
    g.replay dev (cs ++ [c]) = ((g.step (g.replay dev cs).1 c).1,
      (g.replay dev cs).2 ++ [(g.step (g.replay dev cs).1 c).2]) := by
  induction cs generalizing dev with
  | nil => rfl
  | cons d ds ih =>
    rw [List.cons_append]
    unfold Geometry.replay
    dsimp only
    rw [ih, List.cons_append]

theorem write_cases (z : Zone) (base lba n : Nat) :
    (∃ reply, reply ≠ .success ∧ z.write g base lba n = (z, reply)) ∨
      z.write g base lba n = (z.advance g.cap n, .success) := by
  unfold Zone.write
  split
  · exact Or.inl ⟨_, by decide, rfl⟩
  split
  · exact Or.inl ⟨_, by decide, rfl⟩
  split
  · exact Or.inl ⟨_, by decide, rfl⟩
  split
  · exact Or.inl ⟨_, by decide, rfl⟩
  · exact Or.inr rfl

theorem write_refused {z : Zone} {base lba n : Nat} (h : (z.write g base lba n).2 ≠ .success) :
    (z.write g base lba n).1 = z := by
  rcases write_cases (g := g) z base lba n with ⟨reply, _, heq⟩ | heq
  · rw [heq]
  · rw [heq] at h
    exact absurd rfl h

structure Zone.Wf (cap : Nat) (z : Zone) : Prop where
  start : z.cond = .empty → z.filled = 0
  upper : z.filled ≤ cap
  below : z.cond ≠ .full → z.filled < cap

def Device.Wf (g : Geometry) (dev : Device) : Prop := ∀ zone, (dev zone).Wf g.cap

theorem Zone.Wf.blank {cap : Nat} (h : 0 < cap) : Zone.blank.Wf cap :=
  ⟨fun _ => rfl, Nat.zero_le cap, fun _ => h⟩

theorem Zone.Wf.act {cap : Nat} {z : Zone} (k : z.Wf cap) (hcap : 0 < cap) (action : Action) :
    (z.act action).1.Wf cap := by
  have hkeep : ∀ c, c ≠ .empty → (c ≠ .full → z.cond ≠ .full) → Zone.Wf cap { z with cond := c } :=
    fun c hc hf => ⟨fun he => absurd he hc, k.upper, fun hne => k.below (hf hne)⟩
  cases action with
  | close =>
    unfold Zone.act
    cases h : z.cond with
    | implicit | explicit | closed => exact hkeep _ (by decide) (fun _ => by rw [h]; decide)
    | empty | full => exact k
  | finish => exact hkeep _ (by decide) (fun hne => absurd rfl hne)
  | «open» =>
    unfold Zone.act
    cases h : z.cond with
    | full => exact k
    | empty | implicit | explicit | closed => exact hkeep _ (by decide) (fun _ => by rw [h]; decide)
  | reset => exact .blank hcap
  | offline => exact k
  | flush => exact k

/-- A range that begins in a zone and does not cross its end fits into it. -/
theorem fits {cap base lba n filled : Nat} {zone : Nat} (hbase : base = zone * cap) (hlt : filled < cap)
    (hcross : lba / cap = (lba + n - 1) / cap) (hlba : lba = base + filled) : filled + n ≤ cap := by
  have hzone : lba / cap = zone := by
    rw [hlba, hbase]
    exact Nat.div_eq_of_lt_le (by omega) (by rw [Nat.succ_mul]; omega)
  have hend := Nat.lt_mul_div_succ (lba + n - 1) (show 0 < cap by omega)
  rw [← hcross, hzone, Nat.mul_succ, Nat.mul_comm cap zone] at hend
  omega

theorem Zone.Wf.write {z : Zone} (k : z.Wf g.cap) {zone base : Nat} (hbase : base = zone * g.cap)
    (lba n : Nat) : (z.write g base lba n).1.Wf g.cap := by
  unfold Zone.write
  split
  · exact k
  split
  · exact k
  rename_i hcross
  split
  · exact k
  rename_i hlba
  split
  · exact k
  rename_i hfull
  have hfits := fits hbase (k.below hfull) (Decidable.of_not_not hcross) (Decidable.of_not_not hlba)
  refine ⟨fun he => ?_, hfits, fun hne => ?_⟩
  · unfold Zone.advance at he
    dsimp only at he
    split at he
    · cases he
    split at he <;> cases he
  · unfold Zone.advance at hne ⊢
    dsimp only at hne ⊢
    split at hne
    · exact absurd rfl hne
    · omega

theorem Device.Wf.set {dev : Device} (k : dev.Wf g) {zone : Nat} {r : Zone × Reply} (h : r.1.Wf g.cap) :
    (dev.set zone r).1.Wf g := by
  intro z
  change (Function.update dev zone r.1 z).Wf g.cap
  by_cases hz : z = zone
  · rw [hz, Function.update_self]
    exact h
  · rw [Function.update_of_ne hz]
    exact k z

theorem Device.Wf.step {dev : Device} (k : dev.Wf g) (hcap : 0 < g.cap) (c : Command) :
    (g.step dev c).1.Wf g := by
  cases c with
  | write zone lba n => exact k.set ((k zone).write rfl lba n)
  | append zone n => exact k.set ((k zone).write rfl _ n)
  | manage zone action => exact k.set ((k zone).act hcap action)
  | manageAll action =>
    intro zone
    change (if zone < g.nr then _ else dev zone).Wf g.cap
    split
    · exact (k zone).act hcap action
    · exact k zone

/-- Whatever the host sends, conditions and write pointers agree. -/
theorem replay_wf (hcap : 0 < g.cap) (cs : List Command) {dev : Device} (k : dev.Wf g) :
    (g.replay dev cs).1.Wf g := by
  induction cs generalizing dev with
  | nil => exact k
  | cons c cs ih => exact ih (k.step hcap c)

end ZonedDevice
