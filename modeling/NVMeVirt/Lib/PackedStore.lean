import Mathlib.Data.List.Induction
import Mathlib.Logic.Function.Basic
import Mathlib.Tactic.Common

/-!
# A store of packed values

A map from keys to values. A new key is given a place behind all that is in use, as long as its
first value; later values go to the same place, and a place is not used twice. As long as the
values fit their places no two keys share a byte.
-/

namespace PackedStore
set_option autoImplicit false

universe u v
variable {κ : Type u} {ν : Type v}

inductive Request (κ : Type u) (ν : Type v) where
  | put (key : κ) (value : ν)
  | get (key : κ)
  | has (key : κ)
  | drop (key : κ)

inductive Reply (ν : Type v) where
  | done
  | missing
  | found (value : ν)

/-- The reply of a map. -/
def reply (m : κ → Option ν) : Request κ ν → Reply ν
  | .put _ _ => .done
  | .get key => (m key).elim .missing .found
  | .has key => (m key).elim .missing (fun _ => .done)
  | .drop key => (m key).elim .missing (fun _ => .done)

structure Entry (ν : Type v) where
  value : ν
  start : Nat
  room : Nat

structure Store (κ : Type u) (ν : Type v) where
  entries : κ → Option (Entry ν)
  used : Nat

/-- How long values are, how much there is in all, and which value may replace which. -/
structure Rules (ν : Type v) where
  size : ν → Nat
  cap : Nat
  replaces : ν → ν → Prop

def Store.empty : Store κ ν := ⟨fun _ => none, 0⟩

def Store.value (s : Store κ ν) (key : κ) : Option ν := (s.entries key).map Entry.value

section
variable [DecidableEq κ] (g : Rules ν)

def apply (m : κ → Option ν) : Request κ ν → κ → Option ν
  | .put key value => Function.update m key (some value)
  | .drop key => Function.update m key none
  | .get _ | .has _ => m

/-- The map that the requests lead to. -/
def contents (requests : List (Request κ ν)) : κ → Option ν := requests.foldl apply (fun _ => none)

def Store.put (s : Store κ ν) (key : κ) (value : ν) : Store κ ν :=
  match s.entries key with
  | none => ⟨Function.update s.entries key (some ⟨value, s.used, g.size value⟩), s.used + g.size value⟩
  | some e => { s with entries := Function.update s.entries key (some { e with value := value }) }

def Store.drop (s : Store κ ν) (key : κ) : Store κ ν :=
  { s with entries := Function.update s.entries key none }

def Store.next (s : Store κ ν) : Request κ ν → Store κ ν
  | .put key value => s.put g key value
  | .drop key => s.drop key
  | .get _ | .has _ => s

def Store.run (s : Store κ ν) (requests : List (Request κ ν)) : Store κ ν :=
  requests.foldl (Store.next g) s

/-- A new key finds room behind what is in use, a present one at its place. -/
def Store.Fits (s : Store κ ν) (key : κ) (value : ν) : Prop :=
  match s.entries key with
  | none => s.used + g.size value ≤ g.cap
  | some e => g.size value ≤ e.room ∧ g.replaces e.value value

def Store.Permits (s : Store κ ν) : Request κ ν → Prop
  | .put key value => s.Fits g key value
  | .get _ | .has _ | .drop _ => True

def Permitted (requests : List (Request κ ν)) : Prop :=
  ∀ before request, before ++ [request] <+: requests →
    ((Store.empty : Store κ ν).run g before).Permits g request

variable {g} {s : Store κ ν} {requests : List (Request κ ν)} {request : Request κ ν} {key : κ} {value : ν}

theorem run_snoc : s.run g (requests ++ [request]) = (s.run g requests).next g request := by
  unfold Store.run
  rw [List.foldl_append]
  rfl

theorem permitted_nil : Permitted g ([] : List (Request κ ν)) := by
  intro before request hp
  exact absurd hp.length_le (by simp)

theorem Permitted.snoc (h : Permitted g requests)
    (hlast : ((Store.empty : Store κ ν).run g requests).Permits g request) :
    Permitted g (requests ++ [request]) := by
  intro before r hp
  rcases List.prefix_concat_iff.mp hp with heq | hp
  · obtain ⟨rfl, hone⟩ := List.append_inj' heq rfl
    rw [List.singleton_inj.mp hone]
    exact hlast
  · exact h before r hp

theorem Permitted.init (h : Permitted g (requests ++ [request])) : Permitted g requests :=
  fun before r hp => h before r (hp.trans (List.prefix_append ..))

theorem Permitted.last (h : Permitted g (requests ++ [request])) :
    ((Store.empty : Store κ ν).run g requests).Permits g request :=
  h requests request (List.prefix_refl _)

theorem put_new (h : s.entries key = none) : s.put g key value =
    ⟨Function.update s.entries key (some ⟨value, s.used, g.size value⟩), s.used + g.size value⟩ := by
  unfold Store.put
  rw [h]

theorem put_present {e : Entry ν} (h : s.entries key = some e) : s.put g key value =
    { s with entries := Function.update s.entries key (some { e with value := value }) } := by
  unfold Store.put
  rw [h]

theorem put_other {k : κ} (h : k ≠ key) : (s.put g key value).entries k = s.entries k := by
  unfold Store.put
  split
  · exact Function.update_of_ne h _ _
  · exact Function.update_of_ne h _ _

theorem put_self : ∃ e, (s.put g key value).entries key = some e ∧ e.value = value := by
  unfold Store.put
  split
  · exact ⟨_, Function.update_self .., rfl⟩
  · exact ⟨_, Function.update_self .., rfl⟩

theorem value_put : (s.put g key value).value = Function.update s.value key (some value) := by
  funext k
  unfold Store.value
  by_cases h : k = key
  · obtain ⟨e, he, hv⟩ : ∃ e, (s.put g key value).entries key = some e ∧ e.value = value := put_self
    rw [h, Function.update_self, he, Option.map_some, hv]
  · rw [Function.update_of_ne h, put_other h]

theorem drop_self : (s.drop key).entries key = none := Function.update_self ..

theorem drop_other {k : κ} (h : k ≠ key) : (s.drop key).entries k = s.entries k :=
  Function.update_of_ne h _ _

theorem drop_absent (h : s.entries key = none) : s.drop key = s := by
  unfold Store.drop
  rw [← h, Function.update_eq_self]

theorem value_drop : (s.drop key).value = Function.update s.value key none := by
  funext k
  unfold Store.value
  by_cases h : k = key
  · rw [h, Function.update_self, drop_self, Option.map_none]
  · rw [Function.update_of_ne h, drop_other h]

theorem value_next : (s.next g request).value = apply s.value request := by
  cases request with
  | put key value => exact value_put
  | get key => rfl
  | has key => rfl
  | drop key => exact value_drop

theorem value_run : ((Store.empty : Store κ ν).run g requests).value = contents requests := by
  induction requests using List.reverseRecOn with
  | nil => rfl
  | append_singleton requests request ih =>
    rw [run_snoc, value_next, ih]
    unfold contents
    rw [List.foldl_append]
    rfl

structure Store.Packed (s : Store κ ν) (g : Rules ν) : Prop where
  fits : ∀ {key e}, s.entries key = some e → g.size e.value ≤ e.room ∧ e.start + e.room ≤ s.used
  apart : ∀ {k₁ k₂ e₁ e₂}, s.entries k₁ = some e₁ → s.entries k₂ = some e₂ → k₁ ≠ k₂ →
    e₁.start + e₁.room ≤ e₂.start ∨ e₂.start + e₂.room ≤ e₁.start
  used_le : s.used ≤ g.cap

omit [DecidableEq κ] in
theorem packed_empty : (Store.empty : Store κ ν).Packed g where
  fits := fun h => nomatch h
  apart := fun h => nomatch h
  used_le := Nat.zero_le _

omit [DecidableEq κ] in
theorem Store.Packed.of_places {t : Store κ ν} (h : s.Packed g)
    (hused : s.used ≤ t.used) (hcap : t.used ≤ g.cap)
    (hfits : ∀ {key e}, t.entries key = some e → g.size e.value ≤ e.room)
    (hplace : ∀ {key e}, t.entries key = some e →
      ∃ e₀, s.entries key = some e₀ ∧ e.start = e₀.start ∧ e.room = e₀.room) : t.Packed g where
  fits := by
    intro k e he
    obtain ⟨e₀, he₀, hstart, hroom⟩ := hplace he
    refine ⟨hfits he, ?_⟩
    rw [hstart, hroom]
    exact Nat.le_trans (h.fits he₀).2 hused
  apart := by
    intro k₁ k₂ e₁ e₂ h₁ h₂ hne
    obtain ⟨f₁, hf₁, hs₁, hr₁⟩ := hplace h₁
    obtain ⟨f₂, hf₂, hs₂, hr₂⟩ := hplace h₂
    rw [hs₁, hs₂, hr₁, hr₂]
    exact h.apart hf₁ hf₂ hne
  used_le := hcap

theorem Store.Packed.insert (h : s.Packed g) (hnew : s.entries key = none)
    (hroom : s.used + g.size value ≤ g.cap) : (s.put g key value).Packed g := by
  rw [put_new hnew]
  have hcases : ∀ {k e}, Function.update s.entries key (some ⟨value, s.used, g.size value⟩) k = some e →
      k = key ∧ e = ⟨value, s.used, g.size value⟩ ∨ k ≠ key ∧ s.entries k = some e := by
    intro k e he
    by_cases hk : k = key
    · rw [hk, Function.update_self] at he
      exact Or.inl ⟨hk, (Option.some.inj he).symm⟩
    · rw [Function.update_of_ne hk] at he
      exact Or.inr ⟨hk, he⟩
  refine ⟨?_, ?_, hroom⟩
  · intro k e he
    rcases hcases he with ⟨_, rfl⟩ | ⟨_, he⟩
    · exact ⟨Nat.le_refl _, Nat.le_refl _⟩
    · exact ⟨(h.fits he).1, Nat.le_add_right_of_le (h.fits he).2⟩
  · intro k₁ k₂ e₁ e₂ h₁ h₂ hne
    rcases hcases h₁ with ⟨hk₁, rfl⟩ | ⟨_, h₁⟩
    · rcases hcases h₂ with ⟨hk₂, _⟩ | ⟨_, h₂⟩
      · exact absurd (hk₁.trans hk₂.symm) hne
      · exact Or.inr (h.fits h₂).2
    · rcases hcases h₂ with ⟨_, rfl⟩ | ⟨_, h₂⟩
      · exact Or.inl (h.fits h₁).2
      · exact h.apart h₁ h₂ hne

theorem Store.Packed.replace (h : s.Packed g) {e : Entry ν} (he : s.entries key = some e)
    (hroom : g.size value ≤ e.room) : (s.put g key value).Packed g := by
  have hself : (s.put g key value).entries key = some { e with value := value } := by
    rw [put_present he]
    exact Function.update_self ..
  have hused : (s.put g key value).used = s.used := by rw [put_present he]
  refine h.of_places (Nat.le_of_eq hused.symm) (hused ▸ h.used_le) ?_ ?_
  · intro k f hf
    by_cases hk : k = key
    · rw [hk, hself] at hf
      cases hf
      exact hroom
    · rw [put_other hk] at hf
      exact (h.fits hf).1
  · intro k f hf
    by_cases hk : k = key
    · rw [hk, hself] at hf
      cases hf
      exact ⟨e, hk ▸ he, rfl, rfl⟩
    · rw [put_other hk] at hf
      exact ⟨f, hf, rfl, rfl⟩

theorem Store.Packed.drop (h : s.Packed g) (key : κ) : (s.drop key).Packed g := by
  have hkept : ∀ {k e}, (s.drop key).entries k = some e → s.entries k = some e := by
    intro k e he
    by_cases hk : k = key
    · rw [hk, drop_self] at he
      cases he
    · rwa [drop_other hk] at he
  exact h.of_places (Nat.le_refl _) h.used_le (fun he => (h.fits (hkept he)).1)
    (fun he => ⟨_, hkept he, rfl, rfl⟩)

theorem Store.Packed.next (h : s.Packed g) (hp : s.Permits g request) : (s.next g request).Packed g := by
  cases request with
  | put key value =>
    change s.Fits g key value at hp
    unfold Store.Fits at hp
    cases he : s.entries key with
    | none =>
      rw [he] at hp
      exact h.insert he hp
    | some e =>
      rw [he] at hp
      exact h.replace he hp.1
  | get key => exact h
  | has key => exact h
  | drop key => exact h.drop key

theorem Permitted.packed (h : Permitted g requests) :
    ((Store.empty : Store κ ν).run g requests).Packed g := by
  induction requests using List.reverseRecOn with
  | nil => exact packed_empty
  | append_singleton requests request ih =>
    rw [run_snoc]
    exact (ih h.init).next h.last

end

end PackedStore
