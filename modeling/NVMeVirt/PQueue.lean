import NVMeVirt.Params
import Mathlib.Data.Finset.Card
import Mathlib.Order.Interval.Finset.Nat

/-!
# The priority queue of `pqueue/pqueue.c`

A binary heap over `d[1 .. size-1]` (slot 0 is unused). The elements live outside the
queue, in a store `σ` that is reached through the callbacks, so that each element
carries its own priority and its own position. The queue is generic in both.
-/

namespace NVMeVirt
set_option autoImplicit false
open Outcome

variable {σ α : Type}

structure PQueue (α : Type) where
  size : Nat
  avail : Nat
  d : Nat → α
  deriving Inhabited

/-- The callbacks handed to `pqueue_init`. -/
structure PQueueOps (σ α : Type) where
  cmppri : Nat → Nat → Bool
  getpri : σ → α → Nat
  setpri : σ → α → Nat → σ
  getpos : σ → α → Nat
  setpos : σ → α → Nat → σ

namespace PQueue

def pqueueInit (n : Nat) (d : Nat → α) : PQueue α := ⟨1, n + 1, d⟩

def left (i : Nat) : Nat := 2 * i
def right (i : Nat) : Nat := 2 * i + 1
def parent (i : Nat) : Nat := i / 2

def put (q : PQueue α) (i : Nat) (x : α) : PQueue α := { q with d := Function.update q.d i x }

@[simp] theorem put_size (q : PQueue α) (i : Nat) (x : α) : (q.put i x).size = q.size := rfl
@[simp] theorem put_avail (q : PQueue α) (i : Nat) (x : α) : (q.put i x).avail = q.avail := rfl
@[simp] theorem put_same (q : PQueue α) (i : Nat) (x : α) : (q.put i x).d i = x := by simp [put]

theorem put_other (q : PQueue α) {i j : Nat} (x : α) (h : j ≠ i) : (q.put i x).d j = q.d j := by
  simp [put, h]

variable (ops : PQueueOps σ α)

/-- The `for` loop of `bubble_up`, moving parents down; returns the final hole. -/
def bubbleUpLoop (movingPri : Nat) : Nat → PQueue α → σ → Nat → PQueue α × σ × Nat
  | 0, q, s, i => (q, s, i)
  | fuel + 1, q, s, i =>
    if 1 < i ∧ ops.cmppri (ops.getpri s (q.d (parent i))) movingPri = true then
      let x := q.d (parent i)
      bubbleUpLoop movingPri fuel (q.put i x) (ops.setpos s x i) (parent i)
    else (q, s, i)

/-- `i` halves in every turn, so `i` turns are enough. -/
def bubbleUp (q : PQueue α) (s : σ) (i : Nat) : PQueue α × σ :=
  let movingNode := q.d i
  let (q, s, i) := bubbleUpLoop ops (ops.getpri s movingNode) i q s i
  (q.put i movingNode, ops.setpos s movingNode i)

def maxchild (q : PQueue α) (s : σ) (i : Nat) : Nat :=
  let childNode := left i
  if q.size ≤ childNode then 0
  else if childNode + 1 < q.size ∧
      ops.cmppri (ops.getpri s (q.d childNode)) (ops.getpri s (q.d (childNode + 1))) = true then
    childNode + 1
  else childNode

def percolateDownLoop (movingPri : Nat) : Nat → PQueue α → σ → Nat → PQueue α × σ × Nat
  | 0, q, s, i => (q, s, i)
  | fuel + 1, q, s, i =>
    let childNode := maxchild ops q s i
    if childNode ≠ 0 ∧ ops.cmppri movingPri (ops.getpri s (q.d childNode)) = true then
      let x := q.d childNode
      percolateDownLoop movingPri fuel (q.put i x) (ops.setpos s x i) childNode
    else (q, s, i)

/-- `i` at least doubles in every turn and stays below `size`, so `size` turns are enough. -/
def percolateDown (q : PQueue α) (s : σ) (i : Nat) : PQueue α × σ :=
  let movingNode := q.d i
  let (q, s, i) := percolateDownLoop ops (ops.getpri s movingNode) q.size q s i
  (q.put i movingNode, ops.setpos s movingNode i)

/-- The check against `avail` only prints an error: a full array is then written past its end. -/
def pqueueInsert (q : PQueue α) (s : σ) (x : α) : Except Fault (PQueue α × σ) :=
  if q.avail ≤ q.size then .error .badAddress
  else
    let i := q.size
    .ok (bubbleUp ops ({ q with size := q.size + 1 }.put i x) s i)

def pqueueChangePriority (q : PQueue α) (s : σ) (newPri : Nat) (x : α) : PQueue α × σ :=
  let oldPri := ops.getpri s x
  let s := ops.setpri s x newPri
  let posn := ops.getpos s x
  if ops.cmppri oldPri newPri then bubbleUp ops q s posn else percolateDown ops q s posn

def pqueuePeek (q : PQueue α) : Option α := if q.size = 1 then none else some (q.d 1)

def pqueuePop (q : PQueue α) (s : σ) : Option (α × PQueue α × σ) :=
  if q.size = 1 then none
  else
    let head := q.d 1
    let q := { q with size := q.size - 1 }
    let (q, s) := percolateDown ops (q.put 1 (q.d q.size)) s 1
    some (head, q, s)

def pqueueSize (q : PQueue α) : Nat := q.size - 1

/-- Returns 0 always. The last element fills the slot that the removed one leaves. -/
def pqueueRemove (q : PQueue α) (s : σ) (x : α) : PQueue α × σ :=
  let posn := ops.getpos s x
  let q := { q with size := q.size - 1 }
  let q := q.put posn (q.d q.size)
  if ops.cmppri (ops.getpri s x) (ops.getpri s (q.d posn)) then bubbleUp ops q s posn
  else percolateDown ops q s posn

/-- `pos` at least doubles in every call, so `size` calls deep is enough. -/
def subtreeIsValid (q : PQueue α) (s : σ) : Nat → Nat → Bool
  | 0, _ => true
  | fuel + 1, pos =>
    let child := fun childNode =>
      if childNode < q.size then
        if ops.cmppri (ops.getpri s (q.d pos)) (ops.getpri s (q.d childNode)) then false
        else subtreeIsValid q s fuel childNode
      else true
    child (left pos) && child (right pos)

def pqueueIsValid (q : PQueue α) (s : σ) : Bool := subtreeIsValid ops q s q.size 1

structure LawfulOps : Prop where
  getpos_setpos : ∀ s x p, ops.getpos (ops.setpos s x p) x = p
  getpos_setpos_ne : ∀ s x y p, y ≠ x → ops.getpos (ops.setpos s x p) y = ops.getpos s y
  getpos_setpri : ∀ s x y p, ops.getpos (ops.setpri s x p) y = ops.getpos s y

/-- Exactly the elements of `E` are queued, each once, and each knows its index. -/
structure Holds (q : PQueue α) (s : σ) (E : α → Prop) : Prop where
  size_pos : 1 ≤ q.size
  at_pos : ∀ j, 1 ≤ j → j < q.size → ops.getpos s (q.d j) = j
  mem : ∀ x, E x ↔ ∃ j, 1 ≤ j ∧ j < q.size ∧ q.d j = x

/-- The same while one element is in flight and slot `hole` is the place it left. -/
structure Sifting (q : PQueue α) (s : σ) (hole : Nat) (m : α) (E : α → Prop) : Prop where
  hole_pos : 1 ≤ hole
  hole_lt : hole < q.size
  at_pos : ∀ j, 1 ≤ j → j < q.size → j ≠ hole → ops.getpos s (q.d j) = j
  away : ∀ j, 1 ≤ j → j < q.size → j ≠ hole → q.d j ≠ m
  mem : ∀ x, E x ↔ x = m ∨ ∃ j, 1 ≤ j ∧ j < q.size ∧ j ≠ hole ∧ q.d j = x

/-- What a sift leaves alone: the size, and every observation of the store that does not
depend on the positions of the queued elements. -/
structure Frame (E : α → Prop) (q q' : PQueue α) (s s' : σ) : Prop where
  size : q'.size = q.size
  avail : q'.avail = q.avail
  store : ∀ {β : Type} (f : σ → β), (∀ t x p, E x → f (ops.setpos t x p) = f t) → f s' = f s

variable {ops}

theorem Holds.inj {q : PQueue α} {s : σ} {E : α → Prop} (h : Holds ops q s E) {i j : Nat}
    (hi : 1 ≤ i) (hi' : i < q.size) (hj : 1 ≤ j) (hj' : j < q.size) (hij : q.d i = q.d j) : i = j := by
  rw [← h.at_pos i hi hi', ← h.at_pos j hj hj', hij]

theorem Holds.pos_of_mem {q : PQueue α} {s : σ} {E : α → Prop} (h : Holds ops q s E) {x : α}
    (hx : E x) : 1 ≤ ops.getpos s x ∧ ops.getpos s x < q.size ∧ q.d (ops.getpos s x) = x := by
  obtain ⟨j, hj, hj', rfl⟩ := (h.mem x).mp hx
  rw [h.at_pos j hj hj']
  exact ⟨hj, hj', rfl⟩

theorem Holds.congr {q : PQueue α} {s : σ} {E E' : α → Prop} (h : Holds ops q s E)
    (hE : ∀ x, E' x ↔ E x) : Holds ops q s E' :=
  ⟨h.size_pos, h.at_pos, fun x => (hE x).trans (h.mem x)⟩

/-- A queue of elements of `F` is no longer than `F`. -/
theorem Holds.size_le_card {q : PQueue α} {s : σ} {E : α → Prop} (h : Holds ops q s E) (F : Finset α)
    (hE : ∀ x, E x → x ∈ F) : q.size ≤ F.card + 1 := by
  have hle : (Finset.Ico 1 q.size).card ≤ F.card := by
    apply Finset.card_le_card_of_injOn q.d
    · intro j hj
      obtain ⟨hj, hj'⟩ := Finset.mem_Ico.mp hj
      exact hE _ ((h.mem _).mpr ⟨j, hj, hj', rfl⟩)
    · intro i hi j hj hij
      obtain ⟨hi, hi'⟩ := Finset.mem_Ico.mp hi
      obtain ⟨hj, hj'⟩ := Finset.mem_Ico.mp hj
      exact h.inj hi hi' hj hj' hij
  rw [Nat.card_Ico] at hle
  omega

/-- Lifting an element out of a coherent queue leaves a hole at its place. -/
theorem Holds.sifting {q : PQueue α} {s : σ} {E : α → Prop} (h : Holds ops q s E) {i : Nat}
    (hi : 1 ≤ i) (hi' : i < q.size) : Sifting ops q s i (q.d i) E := by
  refine ⟨hi, hi', fun j hj hj' _ => h.at_pos j hj hj', ?_, ?_⟩
  · intro j hj hj' hne heq
    exact hne (h.inj hj hj' hi hi' heq)
  · intro x
    rw [h.mem]
    constructor
    · rintro ⟨j, hj, hj', rfl⟩
      by_cases hji : j = i
      · exact Or.inl (by rw [hji])
      · exact Or.inr ⟨j, hj, hj', hji, rfl⟩
    · rintro (rfl | ⟨j, hj, hj', _, hx⟩)
      · exact ⟨i, hi, hi', rfl⟩
      · exact ⟨j, hj, hj', hx⟩

theorem Sifting.mem_self {q : PQueue α} {s : σ} {hole : Nat} {m : α} {E : α → Prop}
    (h : Sifting ops q s hole m E) : E m := (h.mem m).mpr (Or.inl rfl)

/-- One turn of either sift: the element at `j` fills the hole and leaves one at `j`. -/
theorem Sifting.move (laws : LawfulOps ops) {q : PQueue α} {s : σ} {hole j : Nat} {m : α}
    {E : α → Prop} (h : Sifting ops q s hole m E) (hj : 1 ≤ j) (hj' : j < q.size) (hne : j ≠ hole) :
    Sifting ops (q.put hole (q.d j)) (ops.setpos s (q.d j) hole) j m E := by
  refine ⟨hj, hj', ?_, ?_, ?_⟩
  · intro k hk hk' hkj
    by_cases hkh : k = hole
    · subst hkh
      rw [put_same, laws.getpos_setpos]
    · rw [put_other _ _ hkh]
      have hd : q.d k ≠ q.d j := by
        intro he
        have hpk := h.at_pos k hk hk' hkh
        rw [he, h.at_pos j hj hj' hne] at hpk
        exact hkj hpk.symm
      rw [laws.getpos_setpos_ne _ _ _ _ hd]
      exact h.at_pos k hk hk' hkh
  · intro k hk hk' hkj
    by_cases hkh : k = hole
    · subst hkh
      rw [put_same]
      exact h.away j hj hj' hne
    · rw [put_other _ _ hkh]
      exact h.away k hk hk' hkh
  · intro x
    rw [h.mem]
    constructor
    · rintro (hx | ⟨k, hk, hk', hkh, rfl⟩)
      · exact Or.inl hx
      · by_cases hkj : k = j
        · subst hkj
          exact Or.inr ⟨hole, h.hole_pos, h.hole_lt, Ne.symm hkh, put_same _ _ _⟩
        · exact Or.inr ⟨k, hk, hk', hkj, put_other _ _ hkh⟩
    · rintro (hx | ⟨k, hk, hk', hkj, hx⟩)
      · exact Or.inl hx
      · by_cases hkh : k = hole
        · subst hkh
          rw [put_same] at hx
          exact Or.inr ⟨j, hj, hj', hne, hx⟩
        · rw [put_other _ _ hkh] at hx
          exact Or.inr ⟨k, hk, hk', hkh, hx⟩

/-- The last step of either sift puts the element in flight into the hole. -/
theorem Sifting.finish (laws : LawfulOps ops) {q : PQueue α} {s : σ} {hole : Nat} {m : α}
    {E : α → Prop} (h : Sifting ops q s hole m E) :
    Holds ops (q.put hole m) (ops.setpos s m hole) E := by
  refine ⟨Nat.le_of_lt (Nat.lt_of_le_of_lt h.hole_pos h.hole_lt), ?_, ?_⟩
  · intro j hj hj'
    by_cases hjh : j = hole
    · subst hjh
      rw [put_same, laws.getpos_setpos]
    · rw [put_other _ _ hjh, laws.getpos_setpos_ne _ _ _ _ (h.away j hj hj' hjh)]
      exact h.at_pos j hj hj' hjh
  · intro x
    rw [h.mem]
    constructor
    · rintro (rfl | ⟨j, hj, hj', hjh, rfl⟩)
      · exact ⟨hole, h.hole_pos, h.hole_lt, put_same _ _ _⟩
      · exact ⟨j, hj, hj', put_other _ _ hjh⟩
    · rintro ⟨j, hj, hj', hx⟩
      by_cases hjh : j = hole
      · subst hjh
        rw [put_same] at hx
        exact Or.inl hx.symm
      · rw [put_other _ _ hjh] at hx
        exact Or.inr ⟨j, hj, hj', hjh, hx⟩

theorem Frame.step {E : α → Prop} {q q' : PQueue α} {s s' : σ} {i : Nat} {x y : α}
    (h : Frame ops E (q.put i y) q' (ops.setpos s x i) s') (hx : E x) :
    Frame ops E q q' s s' :=
  ⟨h.size, h.avail, fun f hf => (h.store f hf).trans (hf s x i hx)⟩

theorem bubbleUpLoop_spec (laws : LawfulOps ops) {m : α} {E : α → Prop} (pri fuel : Nat)
    {q : PQueue α} {s : σ} {i : Nat} (h : Sifting ops q s i m E) :
    Sifting ops (bubbleUpLoop ops pri fuel q s i).1 (bubbleUpLoop ops pri fuel q s i).2.1
      (bubbleUpLoop ops pri fuel q s i).2.2 m E ∧
    Frame ops E q (bubbleUpLoop ops pri fuel q s i).1 s
      (bubbleUpLoop ops pri fuel q s i).2.1 := by
  induction fuel generalizing q s i with
  | zero => exact ⟨h, rfl, rfl, fun _ _ => rfl⟩
  | succ fuel ih =>
    unfold bubbleUpLoop
    split
    · rename_i hc
      have hp : 1 ≤ parent i ∧ parent i < i := by unfold parent; omega
      have hlt : parent i < q.size := Nat.lt_trans hp.2 h.hole_lt
      have hx : E (q.d (parent i)) :=
        (h.mem _).mpr (Or.inr ⟨parent i, hp.1, hlt, Nat.ne_of_lt hp.2, rfl⟩)
      obtain ⟨hs, hf⟩ := ih (h.move laws hp.1 hlt (Nat.ne_of_lt hp.2))
      exact ⟨hs, hf.step hx⟩
    · exact ⟨h, rfl, rfl, fun _ _ => rfl⟩

theorem maxchild_range (q : PQueue α) (s : σ) {i : Nat} (hi : 1 ≤ i)
    (h : maxchild ops q s i ≠ 0) : i < maxchild ops q s i ∧ maxchild ops q s i < q.size := by
  unfold maxchild left at *
  dsimp only at *
  split at h
  · exact absurd rfl h
  · rename_i hlt
    rw [if_neg hlt]
    split <;> omega

theorem percolateDownLoop_spec (laws : LawfulOps ops) {m : α} {E : α → Prop} (pri fuel : Nat)
    {q : PQueue α} {s : σ} {i : Nat} (h : Sifting ops q s i m E) :
    Sifting ops (percolateDownLoop ops pri fuel q s i).1 (percolateDownLoop ops pri fuel q s i).2.1
      (percolateDownLoop ops pri fuel q s i).2.2 m E ∧
    Frame ops E q (percolateDownLoop ops pri fuel q s i).1 s
      (percolateDownLoop ops pri fuel q s i).2.1 := by
  induction fuel generalizing q s i with
  | zero => exact ⟨h, rfl, rfl, fun _ _ => rfl⟩
  | succ fuel ih =>
    unfold percolateDownLoop
    dsimp only
    split
    · rename_i hc
      have hr := maxchild_range q s h.hole_pos hc.1
      have hge : 1 ≤ maxchild ops q s i := by omega
      have hne : maxchild ops q s i ≠ i := by omega
      have hx : E (q.d (maxchild ops q s i)) := (h.mem _).mpr (Or.inr ⟨_, hge, hr.2, hne, rfl⟩)
      obtain ⟨hs, hf⟩ := ih (h.move laws hge hr.2 hne)
      exact ⟨hs, hf.step hx⟩
    · exact ⟨h, rfl, rfl, fun _ _ => rfl⟩

theorem bubbleUp_spec (laws : LawfulOps ops) {E : α → Prop} {q : PQueue α} {s : σ} {i : Nat}
    (h : Sifting ops q s i (q.d i) E) :
    Holds ops (bubbleUp ops q s i).1 (bubbleUp ops q s i).2 E ∧
    Frame ops E q (bubbleUp ops q s i).1 s (bubbleUp ops q s i).2 := by
  obtain ⟨hs, hf⟩ := bubbleUpLoop_spec laws (ops.getpri s (q.d i)) i h
  refine ⟨hs.finish laws, hf.size, hf.avail, ?_⟩
  intro β f hfr
  exact (hfr _ _ _ h.mem_self).trans (hf.store f hfr)

theorem percolateDown_spec (laws : LawfulOps ops) {E : α → Prop} {q : PQueue α} {s : σ} {i : Nat}
    (h : Sifting ops q s i (q.d i) E) :
    Holds ops (percolateDown ops q s i).1 (percolateDown ops q s i).2 E ∧
    Frame ops E q (percolateDown ops q s i).1 s (percolateDown ops q s i).2 := by
  obtain ⟨hs, hf⟩ := percolateDownLoop_spec laws (ops.getpri s (q.d i)) q.size h
  refine ⟨hs.finish laws, hf.size, hf.avail, ?_⟩
  intro β f hfr
  exact (hfr _ _ _ h.mem_self).trans (hf.store f hfr)

/-- Inserting an element that is not queued queues it, provided the array has room. -/
theorem pqueueInsert_spec (laws : LawfulOps ops) {E : α → Prop} {q : PQueue α} {s : σ} {x : α}
    (h : Holds ops q s E) (hx : ¬ E x) (hroom : q.size < q.avail) :
    ∃ q' s', pqueueInsert ops q s x = .ok (q', s') ∧
      Holds ops q' s' (fun y => y = x ∨ E y) ∧ q'.size = q.size + 1 ∧ q'.avail = q.avail ∧
      ∀ {β : Type} (f : σ → β), (∀ t y p, y = x ∨ E y → f (ops.setpos t y p) = f t) → f s' = f s := by
  have hs := h.size_pos
  have hsift : Sifting ops ({ q with size := q.size + 1 }.put q.size x) s q.size
      (({ q with size := q.size + 1 }.put q.size x).d q.size) (fun y => y = x ∨ E y) := by
    rw [put_same]
    refine ⟨hs, Nat.lt_succ_self _, ?_, ?_, ?_⟩
    · intro j hj hj' hne
      rw [put_other _ _ hne]
      simp only [put_size] at hj'
      exact h.at_pos j hj (by omega)
    · intro j hj hj' hne heq
      rw [put_other _ _ hne] at heq
      simp only [put_size] at hj'
      exact hx ((h.mem x).mpr ⟨j, hj, by omega, heq⟩)
    · intro y
      rw [h.mem]
      constructor
      · rintro (hy | ⟨j, hj, hj', rfl⟩)
        · exact Or.inl hy
        · have hne : j ≠ q.size := Nat.ne_of_lt hj'
          exact Or.inr ⟨j, hj, by simp only [put_size]; omega, hne, put_other _ _ hne⟩
      · rintro (hy | ⟨j, hj, hj', hne, hy⟩)
        · exact Or.inl hy
        · rw [put_other _ _ hne] at hy
          simp only [put_size] at hj'
          exact Or.inr ⟨j, hj, by omega, hy⟩
  obtain ⟨hh, hf⟩ := bubbleUp_spec laws hsift
  refine ⟨_, _, ?_, hh, hf.size, hf.avail, fun f hfr => hf.store f hfr⟩
  rw [pqueueInsert, if_neg (Nat.not_le.mpr hroom)]

theorem pqueueChangePriority_spec (laws : LawfulOps ops) {E : α → Prop} {q : PQueue α} {s : σ}
    {x : α} (h : Holds ops q s E) (hx : E x) (newPri : Nat) :
    Holds ops (pqueueChangePriority ops q s newPri x).1
      (pqueueChangePriority ops q s newPri x).2 E ∧
    Frame ops E q (pqueueChangePriority ops q s newPri x).1 (ops.setpri s x newPri)
      (pqueueChangePriority ops q s newPri x).2 := by
  obtain ⟨hp, hp', hd⟩ := h.pos_of_mem hx
  have hset : Holds ops q (ops.setpri s x newPri) E := by
    refine ⟨h.size_pos, ?_, h.mem⟩
    intro j hj hj'
    rw [laws.getpos_setpri]
    exact h.at_pos j hj hj'
  have hpos : ops.getpos (ops.setpri s x newPri) x = ops.getpos s x := laws.getpos_setpri _ _ _ _
  have hsift := hset.sifting hp hp'
  unfold pqueueChangePriority
  dsimp only
  rw [hpos]
  split
  · exact bubbleUp_spec laws hsift
  · exact percolateDown_spec laws hsift

-- The last element fills the slot of the one that leaves. When the last one itself leaves, its slot
-- lies past the new end: the sift compares nothing and writes the position of that element only.

/-- The queue without its last slot, in which `i` is filled with what that slot held. -/
def refill (q : PQueue α) (i : Nat) : PQueue α :=
  { q with size := q.size - 1 }.put i (q.d (q.size - 1))

@[simp] theorem refill_size (q : PQueue α) (i : Nat) : (q.refill i).size = q.size - 1 := rfl
@[simp] theorem refill_avail (q : PQueue α) (i : Nat) : (q.refill i).avail = q.avail := rfl
@[simp] theorem refill_same (q : PQueue α) (i : Nat) : (q.refill i).d i = q.d (q.size - 1) := put_same _ _ _

theorem refill_other (q : PQueue α) {i j : Nat} (h : j ≠ i) : (q.refill i).d j = q.d j := put_other _ _ h

theorem Holds.refill {q : PQueue α} {s : σ} {E : α → Prop} (h : Holds ops q s E) {i : Nat}
    (hi : 1 ≤ i) (hlt : i < q.size - 1) :
    Sifting ops (q.refill i) s i ((q.refill i).d i) (fun y => E y ∧ y ≠ q.d i) := by
  have hlast : 1 ≤ q.size - 1 ∧ q.size - 1 < q.size := by omega
  rw [refill_same]
  refine ⟨hi, hlt, ?_, ?_, ?_⟩
  · intro j hj hj' hji
    rw [refill_size] at hj'
    rw [refill_other _ hji]
    exact h.at_pos j hj (by omega)
  · intro j hj hj' hji heq
    rw [refill_size] at hj'
    rw [refill_other _ hji] at heq
    have hjj := h.inj hj (by omega) hlast.1 hlast.2 heq
    omega
  · intro y
    constructor
    · rintro ⟨hy, hyi⟩
      obtain ⟨j, hj, hj', rfl⟩ := (h.mem y).mp hy
      by_cases hjl : j = q.size - 1
      · exact Or.inl (by rw [hjl])
      · have hji : j ≠ i := fun hc => hyi (by rw [hc])
        exact Or.inr ⟨j, hj, by rw [refill_size]; omega, hji, refill_other _ hji⟩
    · rintro (rfl | ⟨j, hj, hj', hji, hy⟩)
      · refine ⟨(h.mem _).mpr ⟨_, hlast.1, hlast.2, rfl⟩, ?_⟩
        intro hc
        have hli := h.inj hlast.1 hlast.2 hi (by omega) hc
        omega
      · rw [refill_size] at hj'
        rw [refill_other _ hji] at hy
        refine ⟨(h.mem y).mpr ⟨j, hj, by omega, hy⟩, ?_⟩
        intro hc
        exact hji (h.inj hj (by omega) hi (by omega) (hy.trans hc))

/-- Sifting down from a slot without children only writes the position. -/
theorem percolateDown_leaf (q : PQueue α) (s : σ) {i : Nat} (h : q.size ≤ left i) :
    percolateDown ops q s i = (q, ops.setpos s (q.d i) i) := by
  have hloop : ∀ fuel pri, percolateDownLoop ops pri fuel q s i = (q, s, i) := by
    intro fuel pri
    cases fuel with
    | zero => rfl
    | succ fuel => simp [percolateDownLoop, maxchild, h]
  have hput : q.put i (q.d i) = q := by simp [put]
  simp only [percolateDown, hloop, hput]

/-- The last slot is given up; only the element that was there has been written to. -/
theorem Holds.dropLast (laws : LawfulOps ops) {q : PQueue α} {s : σ} {E : α → Prop}
    (h : Holds ops q s E) (hs : 2 ≤ q.size) (p : Nat) :
    Holds ops (q.refill (q.size - 1)) (ops.setpos s (q.d (q.size - 1)) p)
      (fun y => E y ∧ y ≠ q.d (q.size - 1)) := by
  have hd : ∀ j, (q.refill (q.size - 1)).d j = q.d j := by
    intro j
    by_cases hj : j = q.size - 1
    · rw [hj, refill_same]
    · rw [refill_other _ hj]
  refine ⟨by rw [refill_size]; omega, ?_, ?_⟩
  · intro j hj hj'
    rw [refill_size] at hj'
    have hne : q.d j ≠ q.d (q.size - 1) := by
      intro hc
      have hjl := h.inj hj (by omega) (by omega) (by omega) hc
      omega
    rw [hd, laws.getpos_setpos_ne _ _ _ _ hne]
    exact h.at_pos j hj (by omega)
  · intro y
    rw [refill_size]
    constructor
    · rintro ⟨hy, hne⟩
      obtain ⟨j, hj, hj', rfl⟩ := (h.mem y).mp hy
      have hjl : j ≠ q.size - 1 := fun hc => hne (by rw [hc])
      exact ⟨j, hj, by omega, hd j⟩
    · rintro ⟨j, hj, hj', hy⟩
      rw [hd] at hy
      refine ⟨(h.mem y).mpr ⟨j, hj, by omega, hy⟩, ?_⟩
      intro hc
      have hjl := h.inj hj (by omega) (by omega) (by omega) (hy.trans hc)
      omega

theorem pqueuePop_spec (laws : LawfulOps ops) {E : α → Prop} {q : PQueue α} {s : σ}
    (h : Holds ops q s E) (hne : q.size ≠ 1) :
    ∃ q' s', pqueuePop ops q s = some (q.d 1, q', s') ∧
      Holds ops q' s' (fun y => E y ∧ y ≠ q.d 1) ∧ q'.size = q.size - 1 ∧ q'.avail = q.avail ∧
      ∀ {β : Type} (f : σ → β), (∀ t y p, E y → f (ops.setpos t y p) = f t) → f s' = f s := by
  have hs := h.size_pos
  have hroot : E (q.d 1) := (h.mem _).mpr ⟨1, Nat.le_refl 1, by omega, rfl⟩
  refine ⟨_, _, by rw [pqueuePop, if_neg hne], ?_⟩
  change Holds ops (percolateDown ops (q.refill 1) s 1).1 (percolateDown ops (q.refill 1) s 1).2 _ ∧
    (percolateDown ops (q.refill 1) s 1).1.size = _ ∧ (percolateDown ops (q.refill 1) s 1).1.avail = _ ∧ _
  by_cases htwo : q.size = 2
  · have hdrop := h.dropLast laws (by omega) 1
    rw [percolateDown_leaf _ _ (by rw [refill_size, left]; omega), refill_same]
    simp only [htwo, Nat.add_one_sub_one] at hdrop ⊢
    exact ⟨hdrop, refill_size q 1 ▸ by omega, rfl, fun f hf => hf s _ 1 hroot⟩
  · obtain ⟨hh, hf⟩ := percolateDown_spec laws (h.refill (Nat.le_refl 1) (by omega))
    exact ⟨hh, hf.size, hf.avail, fun f hfr => hf.store f (fun t y p hy => hfr t y p hy.1)⟩

theorem pqueueRemove_eq (q : PQueue α) (s : σ) (x : α) : pqueueRemove ops q s x =
    if ops.cmppri (ops.getpri s x) (ops.getpri s (q.d (q.size - 1))) = true then
      bubbleUp ops (q.refill (ops.getpos s x)) s (ops.getpos s x)
    else percolateDown ops (q.refill (ops.getpos s x)) s (ops.getpos s x) := by
  rw [← refill_same q (ops.getpos s x)]
  rfl

/-- Removing takes out the element asked for, given that `cmppri` is strict. -/
theorem pqueueRemove_spec (laws : LawfulOps ops) (hstrict : ∀ a, ops.cmppri a a = false)
    {E : α → Prop} {q : PQueue α} {s : σ} {x : α} (h : Holds ops q s E) (hx : E x) :
    Holds ops (pqueueRemove ops q s x).1 (pqueueRemove ops q s x).2 (fun y => E y ∧ y ≠ x) ∧
    (pqueueRemove ops q s x).1.size = q.size - 1 ∧ (pqueueRemove ops q s x).1.avail = q.avail ∧
    ∀ {β : Type} (f : σ → β), (∀ t y p, E y → f (ops.setpos t y p) = f t) →
      f (pqueueRemove ops q s x).2 = f s := by
  obtain ⟨hp, hp', hd⟩ := h.pos_of_mem hx
  rw [pqueueRemove_eq]
  by_cases hlast : ops.getpos s x = q.size - 1
  · have hend : q.d (q.size - 1) = x := by rw [← hlast, hd]
    have hdrop := h.dropLast laws (by omega) (ops.getpos s x)
    rw [hend, ← hlast] at hdrop
    rw [hend, hstrict, if_neg Bool.false_ne_true, percolateDown_leaf _ _ (by rw [refill_size, left]; omega),
      refill_same, hend]
    exact ⟨hdrop, rfl, rfl, fun f hf => hf s x _ hx⟩
  · have hsift := h.refill hp (by omega)
    rw [hd] at hsift
    have hstore : ∀ {q' : PQueue α} {s' : σ},
        Frame ops (fun y => E y ∧ y ≠ x) (q.refill (ops.getpos s x)) q' s s' →
        ∀ {β : Type} (f : σ → β), (∀ t y p, E y → f (ops.setpos t y p) = f t) → f s' = f s :=
      fun hf β f hfr => hf.store f (fun t y p hy => hfr t y p hy.1)
    split
    · obtain ⟨hh, hf⟩ := bubbleUp_spec laws hsift
      exact ⟨hh, hf.size, hf.avail, hstore hf⟩
    · obtain ⟨hh, hf⟩ := percolateDown_spec laws hsift
      exact ⟨hh, hf.size, hf.avail, hstore hf⟩

end PQueue

end NVMeVirt
