import Mathlib.Data.Nat.Basic
import Mathlib.Tactic.Common

/-!
# Outcomes of fallible code

`Sat x P Q` is a two-sided postcondition of a computation in `Except`: a normal
result satisfies `P`, a failure satisfies `Q`. With `Q` constantly false it is
total correctness, with `Q` constantly true it is partial correctness, so one
lemma per operation serves both. `upto` is the counted `for` loop.
-/

namespace Outcome
set_option autoImplicit false

universe u v w
variable {ε : Type u} {α β σ : Type v}

def Sat (x : Except ε α) (P : α → Prop) (Q : ε → Prop) : Prop :=
  match x with
  | .ok a => P a
  | .error e => Q e

@[simp] theorem sat_ok {a : α} {P : α → Prop} {Q : ε → Prop} :
    Sat (.ok a) P Q ↔ P a := Iff.rfl

@[simp] theorem sat_error {e : ε} {P : α → Prop} {Q : ε → Prop} :
    Sat (.error e) P Q ↔ Q e := Iff.rfl

@[simp] theorem sat_pure {a : α} {P : α → Prop} {Q : ε → Prop} :
    Sat (pure a) P Q ↔ P a := Iff.rfl

theorem Sat.mono {x : Except ε α} {P P' : α → Prop} {Q Q' : ε → Prop} (h : Sat x P Q)
    (hP : ∀ a, P a → P' a) (hQ : ∀ e, Q e → Q' e) : Sat x P' Q' := by
  cases x with
  | ok a => exact hP a h
  | error e => exact hQ e h

theorem Sat.bind {x : Except ε α} {f : α → Except ε β} {R : α → Prop} {P : β → Prop}
    {Q : ε → Prop} (hx : Sat x R Q) (hf : ∀ a, R a → Sat (f a) P Q) : Sat (x >>= f) P Q := by
  cases x with
  | ok a => exact hf a hx
  | error e => exact hx

/-- The same when the rest needs to know what the result was a result of. -/
theorem Sat.bind_eq {x : Except ε α} {f : α → Except ε β} {R : α → Prop} {P : β → Prop}
    {Q : ε → Prop} (hx : Sat x R Q) (hf : ∀ a, x = .ok a → R a → Sat (f a) P Q) : Sat (x >>= f) P Q := by
  cases x with
  | ok a => exact hf a rfl hx
  | error e => exact hx

theorem Sat.of_ok {x : Except ε α} {a : α} {P : α → Prop} {Q : ε → Prop} (h : Sat x P Q)
    (hx : x = .ok a) : P a := by
  subst hx
  exact h

theorem Sat.of_error {x : Except ε α} {e : ε} {P : α → Prop} {Q : ε → Prop} (h : Sat x P Q)
    (hx : x = .error e) : Q e := by
  subst hx
  exact h

theorem Sat.returns {x : Except ε α} {P : α → Prop} {Q : ε → Prop} (h : Sat x P Q)
    (hQ : ∀ e, ¬ Q e) : ∃ a, x = .ok a ∧ P a := by
  cases x with
  | ok a => exact ⟨a, rfl, h⟩
  | error e => exact absurd h (hQ e)

theorem bind_eq_ok {x : Except ε α} {f : α → Except ε β} {b : β} :
    (x >>= f) = .ok b ↔ ∃ a, x = .ok a ∧ f a = .ok b := by
  cases x with
  | ok a =>
    constructor
    · exact fun h => ⟨a, rfl, h⟩
    · rintro ⟨_, ha, h⟩
      cases ha
      exact h
  | error e =>
    constructor
    · exact fun h => nomatch h
    · exact fun ⟨_, ha, _⟩ => nomatch ha

@[simp] theorem ok_bind (a : α) (f : α → Except ε β) : (Except.ok a >>= f) = f a := rfl

@[simp] theorem pure_eq_ok (a : α) : (pure a : Except ε α) = .ok a := rfl

@[simp] theorem error_bind (e : ε) (f : α → Except ε β) :
    ((Except.error e : Except ε α) >>= f) = .error e := rfl

/-- A computation fails before a step that only returns. -/
theorem bind_pure_eq_error {x : Except ε α} {g : α → β} {e : ε} :
    (x >>= fun a => pure (g a)) = .error e ↔ x = .error e := by
  cases x with
  | ok a => exact ⟨nofun, nofun⟩
  | error e' => exact Except.error.injEq e' e ▸ Iff.of_eq (Except.error.injEq e' e).symm

/-- Both computations return, with related results, or both fail with the same error. -/
def Both (R : α → β → Prop) (x : Except ε α) (y : Except ε β) : Prop :=
  match x, y with
  | .ok a, .ok b => R a b
  | .error e, .error e' => e = e'
  | _, _ => False

theorem Both.bind {α' β' : Type v} {R : α → β → Prop} {S : α' → β' → Prop} {x : Except ε α} {y : Except ε β}
    {f : α → Except ε α'} {g : β → Except ε β'} (hx : Both R x y) (hf : ∀ a b, R a b → Both S (f a) (g b)) :
    Both S (x >>= f) (y >>= g) := by
  cases x with
  | ok a =>
    cases y with
    | ok b => exact hf a b hx
    | error e => exact hx.elim
  | error e =>
    cases y with
    | ok b => exact hx.elim
    | error e' => exact hx

theorem Both.same {α' β' : Type v} {S : α' → β' → Prop} {x : Except ε α} {f : α → Except ε α'}
    {g : α → Except ε β'} (hf : ∀ a, x = .ok a → Both S (f a) (g a)) : Both S (x >>= f) (x >>= g) := by
  cases x with
  | ok a => exact hf a rfl
  | error e => exact rfl

theorem Both.of_ok {R : α → β → Prop} {x : Except ε α} {y : Except ε β} (h : Both R x y) {a : α}
    (hx : x = .ok a) : ∃ b, y = .ok b ∧ R a b := by
  subst hx
  cases y with
  | ok b => exact ⟨b, rfl, h⟩
  | error e => exact h.elim

theorem Both.of_error {R : α → β → Prop} {x : Except ε α} {y : Except ε β} (h : Both R x y) {e : ε}
    (hx : x = .error e) : y = .error e := by
  subst hx
  cases y with
  | ok b => exact h.elim
  | error e' => exact congrArg _ (Eq.symm h)

/-- A check lets through exactly what passes it. -/
theorem exists_ite_ok {p : Prop} [Decidable p] {a : α} {e : ε} :
    (∃ b, (if p then Except.ok a else .error e) = .ok b) ↔ p := by
  by_cases h : p
  · simp [h]
  · simp [h]

/-- The computation returns, with a result that passes the test. -/
def check (p : α → Bool) (x : Except ε α) : Bool :=
  match x with
  | .ok a => p a
  | .error _ => false

theorem exists_of_check {p : α → Bool} {x : Except ε α} (h : check p x = true) :
    ∃ a, x = .ok a ∧ p a = true := by
  cases x with
  | ok a => exact ⟨a, rfl, h⟩
  | error e => cases h

/-- `for (k = 0; k < n; k++) s = f(k, s)`. -/
def upto (f : Nat → σ → Except ε σ) : Nat → σ → Except ε σ
  | 0, s => .ok s
  | n + 1, s => upto f n s >>= f n

@[simp] theorem upto_zero (f : Nat → σ → Except ε σ) (s : σ) : upto f 0 s = .ok s := rfl

theorem upto_succ (f : Nat → σ → Except ε σ) (n : Nat) (s : σ) :
    upto f (n+1) s = upto f n s >>= f n := rfl

/-- The loop rule: `I k` is the invariant before the pass with counter `k`. -/
theorem upto_sat {f : Nat → σ → Except ε σ} (I : Nat → σ → Prop) {Q : ε → Prop} (n : Nat) {s : σ}
    (init : I 0 s) (step : ∀ k, k < n → ∀ t, I k t → Sat (f k t) (I (k+1)) Q) :
    Sat (upto f n s) (I n) Q := by
  induction n with
  | zero => exact init
  | succ n ih =>
    have hn := ih (fun k hk => step k (by omega))
    exact hn.bind (fun t ht => step n (by omega) t ht)

theorem upto_induct {f : Nat → σ → Except ε σ} (I : Nat → σ → Prop) {n : Nat} {s s' : σ}
    (h : upto f n s = .ok s') (init : I 0 s)
    (step : ∀ k, k < n → ∀ t t', I k t → f k t = .ok t' → I (k+1) t') : I n s' := by
  have hall : Sat (upto f n s) (I n) (fun _ => True) := by
    refine upto_sat I n init ?_
    intro k hk t ht
    cases hf : f k t with
    | ok t' => exact step k hk t t' ht hf
    | error e => exact trivial
  exact hall.of_ok h

/-- Two loops whose passes keep the states related. -/
theorem Both.upto {τ : Type v} {R : σ → τ → Prop} {f : Nat → σ → Except ε σ} {g : Nat → τ → Except ε τ}
    (h : ∀ k s t, R s t → Both R (f k s) (g k t)) (n : Nat) {s : σ} {t : τ} (hst : R s t) :
    Both R (upto f n s) (upto g n t) := by
  induction n with
  | zero => exact hst
  | succ n ih => exact ih.bind (h n)

/-- A loop that carries something along beside what another loop computes. -/
theorem upto_map {τ : Type _} {f : Nat → σ → Except ε σ} {g : Nat → τ → Except ε τ} (p : τ → σ)
    (h : ∀ k t, (g k t).map p = f k (p t)) (n : Nat) (t : τ) : (upto g n t).map p = upto f n (p t) := by
  induction n with
  | zero => rfl
  | succ n ih =>
    rw [upto_succ, upto_succ, ← ih]
    cases upto g n t with
    | ok t' => exact h n t'
    | error e => rfl

end Outcome
