import NVMeVirt.Lib.Bags
import NVMeVirt.VictimQueue

/-!
# Runs of the priority queue

Calls in any order by users who insert only what is not queued, and remove or reprioritise only
what is. The queue answers as a bag with priorities may, the bookkeeping in the elements stays
right, and the check of the order succeeds after every call.
-/

namespace NVMeVirt
set_option autoImplicit false
open Outcome Bags

namespace PQueue

variable {σ α : Type}

def Queued (q : PQueue α) (x : α) : Prop := ∃ j, 1 ≤ j ∧ j < q.size ∧ q.d j = x

instance (q : PQueue α) [DecidableEq α] (x : α) : Decidable (Queued q x) :=
  decidable_of_iff (∃ j < q.size, 1 ≤ j ∧ q.d j = x)
    ⟨fun ⟨j, hjn, hj, hx⟩ => ⟨j, hj, hjn, hx⟩, fun ⟨j, hj, hjn, hx⟩ => ⟨j, hjn, hj, hx⟩⟩

/-- `setPriority` is the owner of an element writing to it without a call. -/
def pqueueCall (ops : PQueueOps σ α) (q : PQueue α) (s : σ) :
    Request α Nat → Except Fault (PQueue α × σ × Option α)
  | .insert x => (pqueueInsert ops q s x).map fun (q, s) => (q, s, none)
  | .remove x =>
    let (q, s) := pqueueRemove ops q s x
    .ok (q, s, none)
  | .changePriority x newPri =>
    let (q, s) := pqueueChangePriority ops q s newPri x
    .ok (q, s, none)
  | .setPriority x pri => .ok (q, ops.setpri s x pri, none)
  | .pop =>
    match pqueuePop ops q s with
    | none => .ok (q, s, none)
    | some (head, q, s) => .ok (q, s, some head)
  | .peek => .ok (q, s, pqueuePeek q)

def Allowed (q : PQueue α) : Request α Nat → Prop
  | .insert x => ¬ Queued q x ∧ q.size < q.avail
  | .remove x => Queued q x
  | .changePriority x _ => Queued q x
  | .setPriority x _ => ¬ Queued q x
  | .pop => True
  | .peek => True

instance (q : PQueue α) [DecidableEq α] (r : Request α Nat) : Decidable (Allowed q r) :=
  match r with
  | .insert x => inferInstanceAs (Decidable (¬ Queued q x ∧ q.size < q.avail))
  | .remove x => inferInstanceAs (Decidable (Queued q x))
  | .changePriority x _ => inferInstanceAs (Decidable (Queued q x))
  | .setPriority x _ => inferInstanceAs (Decidable (¬ Queued q x))
  | .pop => inferInstanceAs (Decidable True)
  | .peek => inferInstanceAs (Decidable True)

/-- Any allowed calls on a queue for `n` elements, over a store that starts as `s`. -/
inductive QueueRun (ops : PQueueOps σ α) (n : Nat) (d : Nat → α) (s : σ) :
    List (Event α Nat) → PQueue α → σ → Prop where
  | init : QueueRun ops n d s [] (pqueueInit n d) s
  | call {es : List (Event α Nat)} {q q' : PQueue α} {t t' : σ} {r : Request α Nat} {o : Option α}
      (h : QueueRun ops n d s es q t) (ha : Allowed q r) (hc : pqueueCall ops q t r = .ok (q', t', o)) :
      QueueRun ops n d s (es ++ [⟨r, o⟩]) q' t'

variable {ops : PQueueOps σ α} {q : PQueue α} {s : σ} {b : Bag α Nat}

/-- The queue and its store hold what the bag says. -/
structure Carries (ops : PQueueOps σ α) (q : PQueue α) (s : σ) (b : Bag α Nat) : Prop where
  holds : Holds ops q s (· ∈ b.members)
  heaped : Heaped ops q s
  pri : ops.getpri s = b.pri

theorem Carries.queued_iff (k : Carries ops q s b) (x : α) : Queued q x ↔ x ∈ b.members :=
  (k.holds.mem x).symm

theorem Carries.root (k : Carries ops q s b) (hne : q.size ≠ 1) : b.Least (q.d 1) := by
  have hpos := k.holds.size_pos
  refine ⟨(k.holds.mem _).mpr ⟨1, Nat.le_refl 1, by omega, rfl⟩, ?_⟩
  intro y hy
  obtain ⟨j, hj, hjn, rfl⟩ := (k.holds.mem y).mp hy
  rw [← k.pri]
  exact k.heaped.root j hj hjn

variable [DecidableEq α]

theorem Carries.size (k : Carries ops q s b) : pqueueSize q = b.members.card := by
  have himage : (Finset.Ico 1 q.size).image q.d = b.members := by
    ext x
    rw [Finset.mem_image, k.holds.mem]
    constructor
    · rintro ⟨j, hj, hx⟩
      obtain ⟨h1, h2⟩ := Finset.mem_Ico.mp hj
      exact ⟨j, h1, h2, hx⟩
    · rintro ⟨j, h1, h2, hx⟩
      exact ⟨j, Finset.mem_Ico.mpr ⟨h1, h2⟩, hx⟩
  have hinj : Set.InjOn q.d (Finset.Ico 1 q.size) := by
    intro i hi j hj hij
    obtain ⟨hi, hi'⟩ := Finset.mem_Ico.mp hi
    obtain ⟨hj, hj'⟩ := Finset.mem_Ico.mp hj
    exact k.holds.inj hi hi' hj hj' hij
  rw [← himage, Finset.card_image_of_injOn hinj, Nat.card_Ico]
  rfl

theorem Carries.empty_iff (k : Carries ops q s b) : q.size = 1 ↔ b.members = ∅ := by
  have hsize := k.size
  have hpos := k.holds.size_pos
  rw [← Finset.card_eq_zero, ← hsize]
  unfold pqueueSize
  omega

theorem getpri_setpos (order : LawfulPri ops) (s : σ) (x : α) (p : Nat) :
    ops.getpri (ops.setpos s x p) = ops.getpri s := funext fun y => order.getpri_setpos s x y p

theorem getpri_setpri (order : LawfulPri ops) (s : σ) (x : α) (p : Nat) :
    ops.getpri (ops.setpri s x p) = Function.update (ops.getpri s) x p := by
  funext y
  rw [order.getpri_setpri]
  by_cases hy : y = x
  · subst hy
    rw [if_pos rfl, Function.update_self]
  · rw [if_neg hy, Function.update_of_ne hy]

theorem Carries.insert (k : Carries ops q s b) (laws : LawfulOps ops) (order : LawfulPri ops) {x : α}
    (ha : Allowed q (.insert x)) : ∃ q' t', pqueueCall ops q s (.insert x) = .ok (q', t', none) ∧
      Carries ops q' t' ⟨insert x b.members, b.pri⟩ ∧ q'.avail = q.avail := by
  have hx : x ∉ b.members := fun hc => ha.1 ((k.queued_iff x).mpr hc)
  obtain ⟨q', t', hins, hh, -, havail, hst⟩ := pqueueInsert_spec laws k.holds hx ha.2
  refine ⟨q', t', by rw [pqueueCall, hins]; rfl, ⟨?_, ?_, ?_⟩, havail⟩
  · exact hh.congr fun y => Finset.mem_insert
  · exact pqueueInsert_heaped order k.holds.size_pos k.heaped hins
  · exact (hst ops.getpri fun t y p _ => getpri_setpos order t y p).trans k.pri

theorem Carries.remove (k : Carries ops q s b) (laws : LawfulOps ops) (order : LawfulPri ops) {x : α}
    (ha : Allowed q (.remove x)) : ∃ q' t', pqueueCall ops q s (.remove x) = .ok (q', t', none) ∧
      Carries ops q' t' ⟨b.members.erase x, b.pri⟩ ∧ q'.avail = q.avail := by
  have hx : x ∈ b.members := (k.queued_iff x).mp ha
  obtain ⟨hh, -, havail, hst⟩ := pqueueRemove_spec laws (cmppri_irrefl order) k.holds hx
  refine ⟨(pqueueRemove ops q s x).1, (pqueueRemove ops q s x).2, rfl, ⟨?_, ?_, ?_⟩, havail⟩
  · exact hh.congr fun y => by rw [Finset.mem_erase, and_comm]
  · exact pqueueRemove_heaped order k.holds hx k.heaped
  · exact (hst ops.getpri fun t y p _ => getpri_setpos order t y p).trans k.pri

theorem Carries.changePriority (k : Carries ops q s b) (laws : LawfulOps ops) (order : LawfulPri ops)
    {x : α} {p : Nat} (ha : Allowed q (.changePriority x p)) :
    ∃ q' t', pqueueCall ops q s (.changePriority x p) = .ok (q', t', none) ∧
      Carries ops q' t' ⟨b.members, Function.update b.pri x p⟩ ∧ q'.avail = q.avail := by
  have hx : x ∈ b.members := (k.queued_iff x).mp ha
  obtain ⟨hh, hf⟩ := pqueueChangePriority_spec laws k.holds hx p
  refine ⟨(pqueueChangePriority ops q s p x).1, (pqueueChangePriority ops q s p x).2, rfl,
    ⟨hh, ?_, ?_⟩, hf.avail⟩
  · exact pqueueChangePriority_heaped order laws k.holds hx k.heaped p
  · rw [← k.pri, ← getpri_setpri order]
    exact hf.store ops.getpri fun t y p _ => getpri_setpos order t y p

/-- A write to an element outside leaves the slots in order. -/
theorem Carries.setPriority (k : Carries ops q s b) (laws : LawfulOps ops) (order : LawfulPri ops)
    {x : α} (p : Nat) (hx : x ∉ b.members) :
    Carries ops q (ops.setpri s x p) ⟨b.members, Function.update b.pri x p⟩ := by
  have hout : ∀ j, 1 ≤ j → j < q.size → q.d j ≠ x := by
    rintro j hj hjn rfl
    exact hx ((k.holds.mem _).mpr ⟨j, hj, hjn, rfl⟩)
  refine ⟨⟨k.holds.size_pos, ?_, k.holds.mem⟩, ?_, ?_⟩
  · intro j hj hjn
    rw [laws.getpos_setpri]
    exact k.holds.at_pos j hj hjn
  · intro j hj hjn
    unfold keys
    rw [order.getpri_setpri, order.getpri_setpri, if_neg (hout j (by omega) hjn),
      if_neg (hout (j / 2) (by omega) (by omega))]
    exact k.heaped j hj hjn
  · rw [getpri_setpri order, k.pri]

theorem Carries.pop (k : Carries ops q s b) (laws : LawfulOps ops) (order : LawfulPri ops)
    (hne : q.size ≠ 1) : ∃ q' t', pqueuePop ops q s = some (q.d 1, q', t') ∧
      Carries ops q' t' ⟨b.members.erase (q.d 1), b.pri⟩ ∧ q'.avail = q.avail := by
  obtain ⟨q', t', hpop, hh, -, havail, hst⟩ := pqueuePop_spec laws k.holds hne
  refine ⟨q', t', hpop, ⟨?_, ?_, ?_⟩, havail⟩
  · exact hh.congr fun y => by rw [Finset.mem_erase, and_comm]
  · exact pqueuePop_heaped order laws k.holds k.heaped hpop
  · exact (hst ops.getpri fun t y p _ => getpri_setpos order t y p).trans k.pri

theorem pqueueCall_step (laws : LawfulOps ops) (order : LawfulPri ops) (k : Carries ops q s b)
    {r : Request α Nat} (ha : Allowed q r) : ∃ q' t' o b', pqueueCall ops q s r = .ok (q', t', o) ∧
      Step b ⟨r, o⟩ b' ∧ Carries ops q' t' b' ∧ q'.avail = q.avail := by
  cases r with
  | insert x =>
    obtain ⟨q', t', hc, k', havail⟩ := k.insert laws order ha
    exact ⟨q', t', none, _, hc, Step.insert fun hx => ha.1 ((k.queued_iff x).mpr hx), k', havail⟩
  | remove x =>
    obtain ⟨q', t', hc, k', havail⟩ := k.remove laws order ha
    exact ⟨q', t', none, _, hc, Step.remove ((k.queued_iff x).mp ha), k', havail⟩
  | changePriority x p =>
    obtain ⟨q', t', hc, k', havail⟩ := k.changePriority laws order ha
    exact ⟨q', t', none, _, hc, Step.changePriority ((k.queued_iff x).mp ha), k', havail⟩
  | setPriority x p =>
    have hx : x ∉ b.members := fun hx => ha ((k.queued_iff x).mpr hx)
    exact ⟨q, _, none, _, rfl, Step.setPriority hx, k.setPriority laws order p hx, rfl⟩
  | pop =>
    by_cases hone : q.size = 1
    · have hpop : pqueuePop ops q s = none := by rw [pqueuePop, if_pos hone]
      exact ⟨q, s, none, b, by rw [pqueueCall, hpop], Step.popEmpty (k.empty_iff.mp hone), k, rfl⟩
    · obtain ⟨q', t', hpop, k', havail⟩ := k.pop laws order hone
      exact ⟨q', t', some (q.d 1), _, by rw [pqueueCall, hpop], Step.pop (k.root hone), k', havail⟩
  | peek =>
    refine ⟨q, s, pqueuePeek q, b, rfl, Step.peek ?_, k, rfl⟩
    unfold pqueuePeek
    split
    · rename_i hone
      exact k.empty_iff.mp hone
    · rename_i hne
      exact k.root hne

variable {n : Nat} {d : Nat → α} {t : σ} {es : List (Event α Nat)}

omit [DecidableEq α] in
theorem pqueueInit_carries (n : Nat) (d : Nat → α) (s : σ) :
    Carries ops (pqueueInit n d) s ⟨∅, ops.getpri s⟩ := by
  refine ⟨⟨Nat.le_refl 1, ?_, ?_⟩, ?_, rfl⟩
  · intro j hj hjn
    exact absurd hjn (Nat.not_lt.mpr hj)
  · intro x
    constructor
    · intro hx
      exact absurd hx (Finset.notMem_empty x)
    · rintro ⟨j, hj, hjn, -⟩
      exact absurd hjn (Nat.not_lt.mpr hj)
  · intro j hj hjn
    exact absurd hjn (Nat.not_lt.mpr (Nat.le_of_succ_le hj))

theorem QueueRun.carries (laws : LawfulOps ops) (order : LawfulPri ops) (h : QueueRun ops n d s es q t) :
    ∃ b, Run ⟨∅, ops.getpri s⟩ es b ∧ Carries ops q t b ∧ q.avail = n + 1 := by
  induction h with
  | init => exact ⟨_, Run.nil, pqueueInit_carries n d s, rfl⟩
  | call h ha hc ih =>
    obtain ⟨b, hrun, k, havail⟩ := ih
    obtain ⟨q', t', o, b', hc', hstep, k', havail'⟩ := pqueueCall_step laws order k ha
    rw [hc] at hc'
    cases hc'
    exact ⟨b', hrun.snoc hstep, k', havail'.trans havail⟩

theorem Carries.allowed (k : Carries ops q s b) (havail : q.avail = n + 1) {r : Request α Nat}
    (hp : b.Permits r) (hroom : ∀ x, r = .insert x → b.members.card < n) : Allowed q r := by
  have hsize := k.size
  unfold pqueueSize at hsize
  cases r with
  | insert x =>
    have hcard := hroom x rfl
    exact ⟨fun hx => hp ((k.queued_iff x).mp hx), by omega⟩
  | remove x => exact (k.queued_iff x).mpr hp
  | changePriority x p => exact (k.queued_iff x).mpr hp
  | setPriority x p => exact fun hx => hp ((k.queued_iff x).mp hx)
  | pop => trivial
  | peek => trivial

/-- In every run the queue answers as a bag of priorities does. No element is lost or given twice,
the size, the positions and the order are right, and the next call that the bag permits goes
through as long as there is room. -/
theorem pqueue_is_bag (laws : LawfulOps ops) (order : LawfulPri ops) (h : QueueRun ops n d s es q t) :
    ∃ b, Run ⟨∅, ops.getpri s⟩ es b ∧ (∀ x, present b x + goings es x = comings es x) ∧
      (∀ x, ops.getpri t x = b.pri x) ∧ pqueueSize q = b.members.card ∧
      pqueueIsValid ops q t = true ∧
      (∀ x ∈ b.members, 1 ≤ ops.getpos t x ∧ ops.getpos t x ≤ pqueueSize q ∧ q.d (ops.getpos t x) = x) ∧
      ∀ r, b.Permits r → (∀ x, r = .insert x → b.members.card < n) →
        ∃ q' t' o, pqueueCall ops q t r = .ok (q', t', o) := by
  obtain ⟨b, hrun, k, havail⟩ := h.carries laws order
  refine ⟨b, hrun, ?_, fun x => congrFun k.pri x, k.size, (pqueueIsValid_iff order q t).mpr k.heaped, ?_, ?_⟩
  · intro x
    rw [hrun.census x]
    exact Nat.zero_add _
  · intro x hx
    obtain ⟨hp, hp', hd⟩ := k.holds.pos_of_mem hx
    exact ⟨hp, Nat.le_sub_one_of_lt hp', hd⟩
  · intro r hp hroom
    obtain ⟨q', t', o, -, hc, -⟩ := pqueueCall_step laws order k (k.allowed havail hp hroom)
    exact ⟨q', t', o, hc⟩

/-- The calls on three lines with 5, 2 and 7 valid pages. -/
def lineCalls : List (Event Nat Nat) :=
  [⟨.insert 0, none⟩, ⟨.insert 1, none⟩, ⟨.insert 2, none⟩, ⟨.changePriority 1 9, none⟩,
    ⟨.peek, some 0⟩, ⟨.remove 2, none⟩]

def threeLines (x : Nat) : Line := { id := x, ipc := 0, vpc := [5, 2, 7].getD x 0, pos := 0 }

theorem lineCalls_run : ∃ q t, QueueRun victimLineOps 3 (fun _ => 0) threeLines lineCalls q t := by
  have h0 : QueueRun victimLineOps 3 (fun _ => 0) threeLines [] _ _ := QueueRun.init
  have h1 := h0.call (r := .insert 0) (o := none) (by decide) rfl
  have h2 := h1.call (r := .insert 1) (o := none) (by decide) rfl
  have h3 := h2.call (r := .insert 2) (o := none) (by decide) rfl
  have h4 := h3.call (r := .changePriority 1 9) (o := none) (by decide) rfl
  have h5 := h4.call (r := .peek) (o := some 0) trivial rfl
  exact ⟨_, _, h5.call (r := .remove 2) (o := none) (by decide) rfl⟩

theorem pqueue_is_bag_lines : ∃ q t b, Run ⟨∅, victimLineOps.getpri threeLines⟩ lineCalls b ∧
    pqueueSize q = b.members.card ∧ pqueueIsValid victimLineOps q t = true := by
  obtain ⟨q, t, h⟩ := lineCalls_run
  obtain ⟨b, hrun, -, -, hsize, hvalid, -⟩ := pqueue_is_bag victimLineOps_laws victimLineOps_pri h
  exact ⟨q, t, b, hrun, hsize, hvalid⟩

def popAll (ops : PQueueOps σ α) : Nat → PQueue α → σ → List α × PQueue α × σ
  | 0, q, s => ([], q, s)
  | fuel + 1, q, s =>
    match pqueuePop ops q s with
    | none => ([], q, s)
    | some (head, q, s) =>
      let (rest, q, s) := popAll ops fuel q s
      (head :: rest, q, s)

theorem popAll_run (laws : LawfulOps ops) (order : LawfulPri ops) (fuel : Nat) (k : Carries ops q s b) :
    ∃ c, Run b (pops (popAll ops fuel q s).1) c ∧
      Carries ops (popAll ops fuel q s).2.1 (popAll ops fuel q s).2.2 c ∧
      (pqueueSize q ≤ fuel → (popAll ops fuel q s).2.1.size = 1) := by
  induction fuel generalizing q s b with
  | zero =>
    refine ⟨b, Run.nil, k, ?_⟩
    intro hle
    have hpos := k.holds.size_pos
    unfold pqueueSize at hle
    change q.size = 1
    omega
  | succ fuel ih =>
    unfold popAll
    by_cases hone : q.size = 1
    · have hpop : pqueuePop ops q s = none := by rw [pqueuePop, if_pos hone]
      rw [hpop]
      exact ⟨b, Run.nil, k, fun _ => hone⟩
    · obtain ⟨q', t', hpop, k', -⟩ := k.pop laws order hone
      rw [hpop]
      obtain ⟨c, hrun, hc, hend⟩ := ih k'
      refine ⟨c, hrun.cons (Step.pop (k.root hone)), hc, ?_⟩
      intro hle
      have hcard := Finset.card_erase_of_mem (k.root hone).1
      rw [← k.size, ← k'.size] at hcard
      exact hend (by omega)

/-- After any run, popping to the end gives every queued element once, in the order of the
priorities, which stay as they are. -/
theorem pqueue_drains_sorted (laws : LawfulOps ops) (order : LawfulPri ops)
    (h : QueueRun ops n d s es q t) :
    (popAll ops (pqueueSize q) q t).1.Nodup ∧
    (∀ x, x ∈ (popAll ops (pqueueSize q) q t).1 ↔ Queued q x) ∧
    (popAll ops (pqueueSize q) q t).1.Pairwise (fun x y => ops.getpri t x ≤ ops.getpri t y) ∧
    pqueuePop ops (popAll ops (pqueueSize q) q t).2.1 (popAll ops (pqueueSize q) q t).2.2 = none ∧
    ops.getpri (popAll ops (pqueueSize q) q t).2.2 = ops.getpri t := by
  obtain ⟨b, -, k, -⟩ := h.carries laws order
  obtain ⟨c, hrun, hc, hend⟩ := popAll_run laws order (pqueueSize q) k
  have hdrained := hrun.drained
  have hone := hend (Nat.le_refl _)
  have hempty := hc.empty_iff.mp hone
  refine ⟨hdrained.nodup, ?_, ?_, ?_, ?_⟩
  · intro x
    rw [k.queued_iff, hdrained.mem, hempty]
    exact ⟨Or.inl, fun hx => hx.resolve_right (Finset.notMem_empty x)⟩
  · rw [k.pri]
    exact hdrained.sorted
  · rw [pqueuePop, if_pos hone]
  · rw [hc.pri, hdrained.pri, k.pri]

theorem pqueue_drains_sorted_lines : ∃ q t, QueueRun victimLineOps 3 (fun _ => 0) threeLines lineCalls q t ∧
    (popAll victimLineOps (pqueueSize q) q t).1.Pairwise (fun x y => (t x).vpc ≤ (t y).vpc) := by
  obtain ⟨q, t, h⟩ := lineCalls_run
  exact ⟨q, t, h, (pqueue_drains_sorted victimLineOps_laws victimLineOps_pri h).2.2.1⟩

end PQueue

end NVMeVirt
