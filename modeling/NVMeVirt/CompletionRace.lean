import NVMeVirt.CompletionRing

/-!
# Two workers on one completion queue

`__fill_cq_result` in the two steps that another worker can come between: the slot is picked
before the lock is taken, and written under it.
-/

namespace NVMeVirt
set_option autoImplicit false
open Ring

/-- The section under `entry_lock` of a worker that has picked the slot `cqHead`. -/
def fillSection (cq : CompletionQueue) (cqHead : Nat) (w : IoWork) : CompletionQueue :=
  fillCqResult { cq with cqHead := cqHead } w

theorem fillSection_cqHead (cq : CompletionQueue) (w : IoWork) :
    fillSection cq cq.cqHead w = fillCqResult cq w := rfl

/-- A completion queue and, for each worker between its two steps, the slot and the work. -/
structure Posting where
  cq : CompletionQueue
  picked : Nat → Option (Nat × IoWork)

def Posting.pick (s : Posting) (worker : Nat) (w : IoWork) : Posting :=
  { s with picked := Function.update s.picked worker (some (s.cq.cqHead, w)) }

def Posting.fill (s : Posting) (worker slot : Nat) (w : IoWork) : Posting where
  cq := fillSection s.cq slot w
  picked := Function.update s.picked worker none

/-- One section under the lock: the slot it writes, `cq_head` when it begins, and the work. -/
structure Filling where
  slot : Nat
  head : Nat
  work : IoWork

/-- Any interleaving of the steps of any workers, with the sections in their order. -/
inductive PostRun (cq₀ : CompletionQueue) : List Filling → Posting → Prop where
  | start : PostRun cq₀ [] ⟨cq₀, fun _ => none⟩
  | pick {fs : List Filling} {s : Posting} {worker : Nat} (w : IoWork) :
    PostRun cq₀ fs s → s.picked worker = none → PostRun cq₀ fs (s.pick worker w)
  | fill {fs : List Filling} {s : Posting} {worker slot : Nat} {w : IoWork} :
    PostRun cq₀ fs s → s.picked worker = some (slot, w) →
    PostRun cq₀ (fs ++ [⟨slot, s.cq.cqHead, w⟩]) (s.fill worker slot w)

/-- Every section finds `cq_head` where its worker has picked the slot. -/
def Undisturbed (fs : List Filling) : Prop := ∀ f ∈ fs, f.slot = f.head

def SlotsInOrder (cq₀ : CompletionQueue) (fs : List Filling) : Prop :=
  ∀ k (h : k < fs.length), fs[k].slot = (cq₀.cqHead + k) % cq₀.queueSize

/-- The entries for the works, with the phases of a cursor that starts at the head of `cq₀`. -/
def fillings (cq₀ : CompletionQueue) (fs : List Filling) : List NvmeCompletion :=
  fs.mapIdx fun k f => completionOf (cq₀.cursor.after cq₀.queueSize k).phase f.work

/-- The completions take consecutive slots, distinct within a lap; none of the last lap has been
overwritten; the head has moved on by their number, and the phase has turned over at each wrap. -/
structure PostedInOrder (cq₀ : CompletionQueue) (fs : List Filling) (s : Posting) : Prop where
  slots : SlotsInOrder cq₀ fs
  distinct : fs.length ≤ cq₀.queueSize → (fs.map Filling.slot).Nodup
  cells : Latest cq₀.queueSize cq₀.cqHead cq₀.cq s.cq.cq (fillings cq₀ fs)
  cursor : s.cq.cursor = cq₀.cursor.after cq₀.queueSize fs.length

variable {cq₀ : CompletionQueue} {fs : List Filling} {s : Posting}

theorem slotsInOrder_push {f : Filling} : SlotsInOrder cq₀ (fs ++ [f]) ↔
    SlotsInOrder cq₀ fs ∧ f.slot = (cq₀.cqHead + fs.length) % cq₀.queueSize := by
  constructor
  · intro h
    constructor
    · intro k hk
      have := h k (by rw [List.length_append]; exact Nat.lt_add_right 1 hk)
      rwa [List.getElem_append_left hk] at this
    · have := h fs.length (by simp)
      simpa using this
  · rintro ⟨h, hf⟩ k hk
    rw [List.length_append, List.length_singleton] at hk
    rcases Nat.lt_or_ge k fs.length with hlt | hge
    · rw [List.getElem_append_left hlt]
      exact h k hlt
    · obtain rfl : k = fs.length := by omega
      simpa using hf

theorem undisturbed_push {f : Filling} : Undisturbed (fs ++ [f]) ↔ Undisturbed fs ∧ f.slot = f.head := by
  simp [Undisturbed, or_imp, forall_and]

theorem SlotsInOrder.nodup (h : SlotsInOrder cq₀ fs) (hle : fs.length ≤ cq₀.queueSize) :
    (fs.map Filling.slot).Nodup := by
  refine List.nodup_iff_injective_getElem.mpr ?_
  rintro ⟨i, hi⟩ ⟨j, hj⟩ heq
  simp only [List.getElem_map] at heq
  rw [List.length_map] at hi hj
  rw [h i hi, h j hj] at heq
  rcases Nat.le_total i j with hij | hij
  · have := mod_inj (Nat.add_le_add_left hij cq₀.cqHead) (by omega) heq
    simpa using this
  · have := mod_inj (Nat.add_le_add_left hij cq₀.cqHead) (by omega) heq.symm
    simpa using this.symm

theorem fillings_length : (fillings cq₀ fs).length = fs.length := List.length_mapIdx

theorem fillings_push (f : Filling) : fillings cq₀ (fs ++ [f]) = fillings cq₀ fs ++
    [completionOf (cq₀.cursor.after cq₀.queueSize fs.length).phase f.work] := by
  simp [fillings]

theorem PostRun.queueSize (h : PostRun cq₀ fs s) : s.cq.queueSize = cq₀.queueSize := by
  induction h with
  | start => rfl
  | pick _ _ _ ih => exact ih
  | fill _ _ ih => exact ih

theorem PostRun.inOrder (h : PostRun cq₀ fs s) (hhead : cq₀.cqHead < cq₀.queueSize)
    (hu : Undisturbed fs) : PostedInOrder cq₀ fs s := by
  have hpos : 0 < cq₀.queueSize := Nat.zero_lt_of_lt hhead
  induction h with
  | start =>
    exact {
      slots := fun k hk => absurd hk (Nat.not_lt_zero k)
      distinct := fun _ => List.nodup_nil
      cells := Latest.nil _ _ _
      cursor := (Cursor.after_zero (c := cq₀.cursor) hhead).symm }
  | pick _ _ _ ih =>
    have k := ih hu
    exact ⟨k.slots, k.distinct, k.cells, k.cursor⟩
  | @fill fs s worker slot w hrun hpick ih =>
    obtain ⟨hu, hslot⟩ := undisturbed_push.mp hu
    have k := ih hu
    obtain rfl : slot = s.cq.cqHead := hslot
    have hhd : s.cq.cqHead = (cq₀.cqHead + fs.length) % cq₀.queueSize := congrArg Cursor.slot k.cursor
    have hphase : s.cq.phase = (cq₀.cursor.after cq₀.queueSize fs.length).phase :=
      congrArg Cursor.phase k.cursor
    have hslots := (slotsInOrder_push (f := ⟨s.cq.cqHead, s.cq.cqHead, w⟩)).mpr ⟨k.slots, hhd⟩
    refine ⟨hslots, hslots.nodup, ?_, ?_⟩
    · have hpush := k.cells.push (completionOf s.cq.phase w)
      rw [fillings_length, ← hhd, hphase, ← fillings_push ⟨s.cq.cqHead, s.cq.cqHead, w⟩] at hpush
      unfold Posting.fill
      rw [fillSection_cqHead]
      unfold fillCqResult
      rw [hphase]
      exact hpush
    · have hnext := fillCqResult_cursor s.cq w
      rw [hrun.queueSize, k.cursor, Cursor.next_after hpos] at hnext
      rw [List.length_append, List.length_singleton, ← hnext]
      rfl

theorem PostRun.undisturbed (h : PostRun cq₀ fs s) (hhead : cq₀.cqHead < cq₀.queueSize)
    (hslots : SlotsInOrder cq₀ fs) : Undisturbed fs := by
  induction h with
  | start => exact fun f hf => absurd hf List.not_mem_nil
  | pick _ _ _ ih => exact ih hslots
  | @fill fs s worker slot w hrun hpick ih =>
    obtain ⟨hslots, hslot⟩ := slotsInOrder_push.mp hslots
    have hu := ih hslots
    refine undisturbed_push.mpr ⟨hu, ?_⟩
    have hhd := congrArg Cursor.slot (hrun.inOrder hhead hu).cursor
    exact hslot.trans hhd.symm

/-- In any interleaving the completions are posted in order exactly when no section is disturbed. -/
theorem posted_in_order_iff (cq₀ : CompletionQueue) (fs : List Filling) (s : Posting)
    (h : PostRun cq₀ fs s) (hhead : cq₀.cqHead < cq₀.queueSize) :
    PostedInOrder cq₀ fs s ↔ Undisturbed fs := by
  constructor
  · exact fun k => h.undisturbed hhead k.slots
  · exact h.inOrder hhead

/-- Both workers pick slot 0: the second completion replaces the first, the head moves by one. -/
theorem race_overwrites : ∃ fs s, PostRun (createdCq 1 fun _ => zeroCompletion) fs s ∧ fs.length = 2 ∧
    s.cq.cqHead = 1 ∧ s.cq.cq 0 = completionOf true (ioWork 8) ∧ s.cq.cq 1 = zeroCompletion ∧
    ¬ PostedInOrder (createdCq 1 fun _ => zeroCompletion) fs s := by
  have h₁ := @PostRun.pick (createdCq 1 fun _ => zeroCompletion) _ _ 1 (ioWork 7) .start rfl
  have h₂ := @PostRun.pick _ _ _ 2 (ioWork 8) h₁ rfl
  have h₃ := @PostRun.fill _ _ _ 1 0 (ioWork 7) h₂ rfl
  have h := @PostRun.fill _ _ _ 2 0 (ioWork 8) h₃ rfl
  refine ⟨_, _, h, rfl, rfl, rfl, rfl, fun k => ?_⟩
  exact absurd (k.distinct (Nat.le_refl 2)) (by decide)

/-- Two workers, the second of which picks its slot once the first is done. -/
theorem posted_in_order_two : ∃ fs s, PostRun (createdCq 1 fun _ => zeroCompletion) fs s ∧ fs.length = 2 ∧
    PostedInOrder (createdCq 1 fun _ => zeroCompletion) fs s := by
  have h₁ := @PostRun.pick (createdCq 1 fun _ => zeroCompletion) _ _ 1 (ioWork 7) .start rfl
  have h₂ := @PostRun.fill _ _ _ 1 0 (ioWork 7) h₁ rfl
  have h₃ := @PostRun.pick _ _ _ 2 (ioWork 8) h₂ rfl
  have h := @PostRun.fill _ _ _ 2 1 (ioWork 8) h₃ rfl
  refine ⟨_, _, h, rfl, (posted_in_order_iff _ _ _ h (by decide)).mpr ?_⟩
  intro f hf
  rcases List.mem_cons.mp hf with rfl | hf
  · rfl
  · obtain rfl := List.mem_singleton.mp hf
    rfl

end NVMeVirt
