import Mathlib.Algebra.BigOperators.Group.Finset.Basic
import Mathlib.Data.Fintype.Basic
import Mathlib.Data.List.Count
import Mathlib.Data.List.Induction
import Mathlib.Tactic.Common

/-!
# A store on flash

Keys are kept in cells, and cells lie in blocks. A cell is programmed once, in the order of its
block, and is clean again when the whole block is erased. A key that is written again goes to
another cell; a key may also be moved, with the value that its old cell holds. A block is erased
when it is used up and no key is kept in it. `Store.get` sees nothing of moves and erases.
-/

namespace FlashStore
set_option autoImplicit false

universe u v w x
variable {κ : Type u} {α : Type v} {β : Type w} {ν : Type x}

structure Layout (α : Type v) (β : Type w) where
  block : α → β
  place : α → Nat

structure Store (κ : Type u) (α : Type v) (β : Type w) (ν : Type x) where
  cell : α → Option ν
  loc : κ → Option α
  erases : β → Nat

inductive Op (κ : Type u) (α : Type v) (β : Type w) (ν : Type x) where
  | put (k : κ) (v : ν) (a : α)
  | move (k : κ) (a b : α)
  | erase (e : β)

/-- Nothing is kept, every cell is clean. -/
def blank : Store κ α β ν := ⟨fun _ => none, fun _ => none, fun _ => 0⟩

def Store.get (st : Store κ α β ν) (k : κ) : Option ν := (st.loc k).bind st.cell

/-- The cell may be programmed next: it is clean and the cells before it are used. -/
structure Ready (L : Layout α β) (st : Store κ α β ν) (a : α) : Prop where
  clean : st.cell a = none
  order : ∀ a', L.block a' = L.block a → L.place a' < L.place a → st.cell a' ≠ none

/-- The block may be erased: it is used up, and no key is kept in it. -/
structure Spent (L : Layout α β) (st : Store κ α β ν) (e : β) : Prop where
  full : ∀ a, L.block a = e → st.cell a ≠ none
  deserted : ∀ k a, st.loc k = some a → L.block a ≠ e

/-- The key and the value that an operation writes. -/
def Op.puts : Op κ α β ν → List (κ × ν)
  | .put k v _ => [(k, v)]
  | .move _ _ _ => []
  | .erase _ => []

def puts (trace : List (Op κ α β ν)) : List (κ × ν) := trace.flatMap Op.puts

theorem puts_append (trace trace' : List (Op κ α β ν)) :
    puts (trace ++ trace') = puts trace ++ puts trace' := List.flatMap_append

section LastOf

variable [DecidableEq κ]

/-- The value that a list of writes leaves under `k`. -/
def lastOf (k : κ) (old : Option ν) (l : List (κ × ν)) : Option ν :=
  l.foldl (fun v p => if p.1 = k then some p.2 else v) old

theorem lastOf_append (k : κ) (old : Option ν) (l l' : List (κ × ν)) :
    lastOf k old (l ++ l') = lastOf k (lastOf k old l) l' := List.foldl_append

theorem lastOf_snoc (k : κ) (old : Option ν) (l : List (κ × ν)) (p : κ × ν) :
    lastOf k old (l ++ [p]) = if p.1 = k then some p.2 else lastOf k old l := lastOf_append k old l [p]

theorem lastOf_none_iff (k : κ) (l : List (κ × ν)) : lastOf k none l = none ↔ ∀ p ∈ l, p.1 ≠ k := by
  induction l using List.reverseRecOn with
  | nil => simp [lastOf]
  | append_singleton l p ih =>
    rw [lastOf_snoc]
    simp only [List.mem_append, List.mem_singleton]
    by_cases hp : p.1 = k
    · rw [if_pos hp]
      exact ⟨fun h => absurd h (Option.some_ne_none _), fun h => absurd hp (h p (Or.inr rfl))⟩
    · rw [if_neg hp, ih]
      constructor
      · rintro h q (hq | rfl)
        · exact h q hq
        · exact hp
      · exact fun h q hq => h q (Or.inl hq)

end LastOf

section Steps

variable [DecidableEq κ] [DecidableEq α] [DecidableEq β] (L : Layout α β)

inductive Step : Store κ α β ν → Op κ α β ν → Store κ α β ν → Prop where
  | put {st : Store κ α β ν} {k : κ} {v : ν} {a : α} (h : Ready L st a) :
      Step st (.put k v a)
        { st with cell := Function.update st.cell a (some v), loc := Function.update st.loc k (some a) }
  | move {st : Store κ α β ν} {k : κ} {a b : α} (h : Ready L st b) (hat : st.loc k = some a) :
      Step st (.move k a b)
        { st with cell := Function.update st.cell b (st.cell a), loc := Function.update st.loc k (some b) }
  | erase {st : Store κ α β ν} {e : β} (h : Spent L st e) :
      Step st (.erase e)
        { st with
          cell := fun a => if L.block a = e then none else st.cell a
          erases := Function.update st.erases e (st.erases e + 1) }

/-- The steps of a run, the first one first. -/
inductive Run : Store κ α β ν → List (Op κ α β ν) → Store κ α β ν → Prop where
  | nil {st : Store κ α β ν} : Run st [] st
  | snoc {st st₁ st₂ : Store κ α β ν} {trace : List (Op κ α β ν)} {op : Op κ α β ν} :
      Run st trace st₁ → Step L st₁ op st₂ → Run st (trace ++ [op]) st₂

variable {L} {st st' st'' : Store κ α β ν} {op : Op κ α β ν} {trace trace' : List (Op κ α β ν)}

theorem Run.trans (h : Run L st trace st') (h' : Run L st' trace' st'') :
    Run L st (trace ++ trace') st'' := by
  induction h' with
  | nil =>
    rw [List.append_nil]
    exact h
  | snoc _ hs ih =>
    rw [← List.append_assoc]
    exact ih.snoc hs

theorem Run.keeps {P : Store κ α β ν → Prop} (run : Run L st trace st') (start : P st)
    (step : ∀ {st op st'}, P st → Step L st op st' → P st') : P st' := by
  induction run with
  | nil => exact start
  | snoc _ hs ih => exact step ih hs

/-- Every key is kept in a cell that holds something, and no two keys share a cell. -/
structure Placed (st : Store κ α β ν) : Prop where
  used : ∀ k a, st.loc k = some a → st.cell a ≠ none
  alone : ∀ k k' a, st.loc k = some a → st.loc k' = some a → k = k'

omit [DecidableEq κ] [DecidableEq α] [DecidableEq β] in
theorem placed_blank : Placed (blank : Store κ α β ν) :=
  ⟨fun _ _ h => (nomatch h), fun _ _ _ h => (nomatch h)⟩

omit [DecidableEq β] in
/-- A key goes to a clean cell, which takes a value. -/
theorem Placed.relocate (p : Placed st) {k : κ} {a : α} (hclean : st.cell a = none) {c : Option ν}
    (hc : c ≠ none) : Placed { st with
      cell := Function.update st.cell a c, loc := Function.update st.loc k (some a) } := by
  have hother : ∀ k' a', k' ≠ k → Function.update st.loc k (some a) k' = some a' → a' ≠ a := by
    intro k' a' hk h ha
    rw [Function.update_of_ne hk, ha] at h
    exact p.used k' a h hclean
  have hself : ∀ k' a', k' = k → Function.update st.loc k (some a) k' = some a' → a' = a := by
    intro k' a' hk h
    rw [hk, Function.update_self] at h
    exact (Option.some.inj h).symm
  constructor
  · intro k' a' h
    dsimp only at h ⊢
    by_cases hk : k' = k
    · rw [hself k' a' hk h, Function.update_self]
      exact hc
    · rw [Function.update_of_ne (hother k' a' hk h)]
      rw [Function.update_of_ne hk] at h
      exact p.used k' a' h
  · intro k₁ k₂ a' h₁ h₂
    dsimp only at h₁ h₂
    by_cases hk₁ : k₁ = k <;> by_cases hk₂ : k₂ = k
    · exact hk₁.trans hk₂.symm
    · exact absurd (hself k₁ a' hk₁ h₁) (hother k₂ a' hk₂ h₂)
    · exact absurd (hself k₂ a' hk₂ h₂) (hother k₁ a' hk₁ h₁)
    · rw [Function.update_of_ne hk₁] at h₁
      rw [Function.update_of_ne hk₂] at h₂
      exact p.alone k₁ k₂ a' h₁ h₂

theorem Step.placed (p : Placed st) (h : Step L st op st') : Placed st' := by
  cases h with
  | put h => exact p.relocate h.clean (Option.some_ne_none _)
  | move h hat => exact p.relocate h.clean (p.used _ _ hat)
  | erase h =>
    refine ⟨?_, p.alone⟩
    intro k a hk
    dsimp only
    rw [if_neg (h.deserted k a hk)]
    exact p.used k a hk

theorem Run.placed (h : Run L st trace st') (p : Placed st) : Placed st' :=
  h.keeps p fun p hs => hs.placed p

omit [DecidableEq β] in
theorem Placed.get_relocate (p : Placed st) {k : κ} {a : α} (hclean : st.cell a = none) (c : Option ν)
    (k' : κ) : ({ st with
      cell := Function.update st.cell a c, loc := Function.update st.loc k (some a) } :
        Store κ α β ν).get k' = if k' = k then c else st.get k' := by
  unfold Store.get
  dsimp only
  split
  · rename_i hk
    rw [hk, Function.update_self, Option.bind_some, Function.update_self]
  · rename_i hk
    rw [Function.update_of_ne hk]
    cases hl : st.loc k' with
    | none => rfl
    | some a' =>
      rw [Option.bind_some, Option.bind_some, Function.update_of_ne]
      rintro rfl
      exact p.used k' a' hl hclean

/-- Writes are seen, moves and erases are not. -/
theorem Step.get (p : Placed st) (h : Step L st op st') (k : κ) :
    st'.get k = lastOf k (st.get k) op.puts := by
  cases h with
  | @put k' v a h =>
    rw [p.get_relocate h.clean]
    change _ = if k' = k then some v else st.get k
    by_cases hk : k = k'
    · rw [if_pos hk, if_pos hk.symm]
    · rw [if_neg hk, if_neg (Ne.symm hk)]
  | @move k' a b h hat =>
    rw [p.get_relocate h.clean]
    change _ = st.get k
    split
    · rename_i hk
      unfold Store.get
      rw [hk, hat, Option.bind_some]
    · rfl
  | erase h =>
    change (st.loc k).bind _ = (st.loc k).bind st.cell
    cases hl : st.loc k with
    | none => rfl
    | some a =>
      rw [Option.bind_some, Option.bind_some]
      exact if_neg (h.deserted k a hl)

theorem Run.get (h : Run L st trace st') (p : Placed st) (k : κ) :
    st'.get k = lastOf k (st.get k) (puts trace) := by
  induction h with
  | nil => rfl
  | @snoc st₁ st₂ trace op hr hs ih =>
    rw [hs.get (hr.placed p), ih, puts_append, lastOf_append]
    exact congrArg _ (List.append_nil _).symm

end Steps

/-- The cell that an operation programs. -/
def Op.programs : Op κ α β ν → Option α
  | .put _ _ a => some a
  | .move _ _ b => some b
  | .erase _ => none

def Op.isMove : Op κ α β ν → Bool
  | .put _ _ _ => false
  | .move _ _ _ => true
  | .erase _ => false

/-- How often a trace moves a key. -/
def moves (trace : List (Op κ α β ν)) : Nat := trace.countP Op.isMove

theorem countP_programs (trace : List (Op κ α β ν)) :
    trace.countP (fun op => op.programs.isSome) = (puts trace).length + moves trace := by
  induction trace with
  | nil => rfl
  | cons op trace ih =>
    have hputs : puts (op :: trace) = op.puts ++ puts trace := rfl
    unfold moves at ih ⊢
    rw [List.countP_cons, List.countP_cons, ih, hputs, List.length_append]
    cases op <;> simp [Op.programs, Op.puts, Op.isMove] <;> omega

section Programs

variable [DecidableEq α]

/-- How often a trace programs a cell. -/
def programs (a : α) (trace : List (Op κ α β ν)) : Nat := trace.countP (fun op => op.programs = some a)

theorem programs_snoc (a : α) (trace : List (Op κ α β ν)) (op : Op κ α β ν) :
    programs a (trace ++ [op]) = programs a trace + if op.programs = some a then 1 else 0 := by
  unfold programs
  rw [List.countP_append, List.countP_singleton]
  simp

/-- The operations that program a cell, added up over the cells. -/
theorem sum_programs [Fintype α] (trace : List (Op κ α β ν)) :
    ∑ a, programs a trace = trace.countP (fun op => op.programs.isSome) := by
  induction trace using List.reverseRecOn with
  | nil => simp [programs]
  | append_singleton trace op ih =>
    rw [List.countP_append, List.countP_singleton, ← ih]
    simp only [programs_snoc, Finset.sum_add_distrib]
    congr 1
    cases op.programs with
    | none => simp
    | some b =>
      simp only [Option.some.injEq, Option.isSome_some, if_true]
      exact (Finset.sum_eq_single_of_mem b (Finset.mem_univ b) (fun x _ hx => if_neg (Ne.symm hx))).trans
        (if_pos rfl)

def inUse : Option ν → Nat
  | none => 0
  | some _ => 1

theorem inUse_of_ne_none {c : Option ν} (h : c ≠ none) : inUse c = 1 := by
  cases c with
  | none => exact absurd rfl h
  | some v => rfl

theorem inUse_update {cell : α → Option ν} {a b : α} {c : Option ν} (hclean : cell b = none) (hc : c ≠ none) :
    inUse (cell a) + (if some b = some a then 1 else 0) = inUse (Function.update cell b c a) := by
  by_cases hb : b = a
  · subst hb
    rw [if_pos rfl, hclean, Function.update_self, inUse_of_ne_none hc]
    rfl
  · rw [if_neg (fun he => hb (Option.some.inj he)), Function.update_of_ne (Ne.symm hb)]
    rfl

/-- Every cell has been programmed as often as its block has been erased, and once more when it is in use. -/
theorem Run.programs_eq [DecidableEq κ] [DecidableEq β] {L : Layout α β} {st' : Store κ α β ν}
    {trace : List (Op κ α β ν)} (h : Run L blank trace st') (a : α) :
    programs a trace = st'.erases (L.block a) + inUse (st'.cell a) := by
  induction h with
  | nil => rfl
  | @snoc st₁ st₂ trace op hr hs ih =>
    have p := hr.placed placed_blank
    rw [programs_snoc, ih]
    cases hs with
    | put h =>
      rw [Nat.add_assoc]
      exact congrArg _ (inUse_update h.clean (Option.some_ne_none _))
    | move h hat =>
      rw [Nat.add_assoc]
      exact congrArg _ (inUse_update h.clean (p.used _ _ hat))
    | @erase e h =>
      change _ + _ + (if (none : Option α) = some a then 1 else 0) =
        Function.update st₁.erases e _ _ + inUse (if L.block a = e then none else st₁.cell a)
      rw [if_neg (Option.some_ne_none a).symm]
      by_cases he : L.block a = e
      · rw [inUse_of_ne_none (h.full a he), if_pos he, he, Function.update_self]
        rfl
      · rw [if_neg he, Function.update_of_ne he]
        rfl

end Programs

end FlashStore
