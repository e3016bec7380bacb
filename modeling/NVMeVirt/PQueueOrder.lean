import NVMeVirt.Lib.Heaps
import NVMeVirt.PQueue

/-!
# The order of the priority queue

With `cmppri next curr` read as `next > curr` the queue is a heap of priorities with the least
one at the root. Every operation keeps it one; the element in flight counts as lying in the hole.
-/

namespace NVMeVirt
set_option autoImplicit false
open Outcome Heaps

namespace PQueue

variable {σ α : Type} {ops : PQueueOps σ α}

structure LawfulPri [DecidableEq α] (ops : PQueueOps σ α) : Prop where
  cmppri : ∀ a b, ops.cmppri a b = true ↔ b < a
  getpri_setpos : ∀ s x y p, ops.getpri (ops.setpos s x p) y = ops.getpri s y
  getpri_setpri : ∀ s x y p, ops.getpri (ops.setpri s x p) y = if y = x then p else ops.getpri s y

def keys (ops : PQueueOps σ α) (q : PQueue α) (s : σ) : Nat → Nat := fun j => ops.getpri s (q.d j)

/-- The slots with an element of priority `pri` in slot `hole`. -/
def keysWith (ops : PQueueOps σ α) (q : PQueue α) (s : σ) (hole pri : Nat) : Nat → Nat :=
  Function.update (keys ops q s) hole pri

def Heaped (ops : PQueueOps σ α) (q : PQueue α) (s : σ) : Prop := Ordered (keys ops q s) q.size

theorem keysWith_self (q : PQueue α) (s : σ) (i : Nat) :
    keysWith ops q s i (ops.getpri s (q.d i)) = keys ops q s := Function.update_eq_self _ _

theorem keys_refill (q : PQueue α) (s : σ) (i : Nat) :
    keys ops (q.refill i) s = Function.update (keys ops q s) i (ops.getpri s (q.d (q.size - 1))) := by
  funext j
  unfold keys
  by_cases hj : j = i
  · subst hj
    rw [refill_same, Function.update_self]
  · rw [refill_other _ hj, Function.update_of_ne hj]

variable [DecidableEq α]

theorem keysWith_move (laws : LawfulPri ops) (q : PQueue α) (s : σ) {hole j : Nat} (hne : hole ≠ j)
    (pri : Nat) : keysWith ops (q.put hole (q.d j)) (ops.setpos s (q.d j) hole) j pri =
      exchange (keysWith ops q s hole pri) hole j := by
  funext k
  unfold keysWith keys
  by_cases hkj : k = j
  · subst hkj
    rw [Function.update_self, exchange_right, Function.update_self]
  · rw [Function.update_of_ne hkj, laws.getpri_setpos]
    by_cases hkh : k = hole
    · subst hkh
      rw [put_same, exchange_left hne, Function.update_of_ne hne.symm]
    · rw [put_other _ _ hkh, exchange_other hkh hkj, Function.update_of_ne hkh]

/-- Putting the element into the hole leaves the keys as they were counted. -/
theorem keys_finish (laws : LawfulPri ops) (q : PQueue α) (s : σ) (hole : Nat) {m : α} {pri : Nat}
    (hm : ops.getpri s m = pri) :
    keys ops (q.put hole m) (ops.setpos s m hole) = keysWith ops q s hole pri := by
  funext k
  unfold keysWith keys
  rw [laws.getpri_setpos]
  by_cases hkh : k = hole
  · subst hkh
    rw [put_same, Function.update_self, hm]
  · rw [put_other _ _ hkh, Function.update_of_ne hkh]

/-- A finished sift: the array is as long, the priorities are the same, and counting the element in
flight the keys are in order. -/
structure Sifted (ops : PQueueOps σ α) (q : PQueue α) (s : σ) (pri : Nat) (q' : PQueue α) (s' : σ)
    (hole : Nat) : Prop where
  size : q'.size = q.size
  same : ∀ y, ops.getpri s' y = ops.getpri s y
  ordered : Ordered (keysWith ops q' s' hole pri) q.size

theorem Sifted.step (laws : LawfulPri ops) {q q' : PQueue α} {s s' : σ} {pri i hole : Nat} {x y : α}
    (h : Sifted ops (q.put i x) (ops.setpos s y i) pri q' s' hole) : Sifted ops q s pri q' s' hole :=
  ⟨h.size, fun z => (h.same z).trans (laws.getpri_setpos _ _ _ _), h.ordered⟩

theorem Sifted.heaped (laws : LawfulPri ops) {q q' : PQueue α} {s s' : σ} {hole : Nat} {m : α}
    (h : Sifted ops q s (ops.getpri s m) q' s' hole) : Heaped ops (q'.put hole m) (ops.setpos s' m hole) := by
  unfold Heaped
  rw [keys_finish laws q' s' hole (h.same m), put_size, h.size]
  exact h.ordered

theorem bubbleUpLoop_sifted (laws : LawfulPri ops) (pri fuel : Nat) {q : PQueue α} {s : σ} {i : Nat}
    (hi : 1 ≤ i) (hfuel : i ≤ fuel) (hn : i < q.size)
    (h : Rising (keysWith ops q s i pri) q.size i) :
    Sifted ops q s pri (bubbleUpLoop ops pri fuel q s i).1 (bubbleUpLoop ops pri fuel q s i).2.1
      (bubbleUpLoop ops pri fuel q s i).2.2 := by
  induction fuel generalizing q s i with
  | zero => omega
  | succ fuel ih =>
    have hself : keysWith ops q s i pri i = pri := Function.update_self _ _ _
    have hparent : 2 ≤ i → keysWith ops q s i pri (i / 2) = ops.getpri s (q.d (parent i)) :=
      fun _ => Function.update_of_ne (by omega) _ _
    unfold bubbleUpLoop
    split
    · rename_i hc
      have hlt := (laws.cmppri _ _).mp hc.2
      have hup := h.up (by omega) hn (by rw [hself, hparent (by omega)]; exact Nat.le_of_lt hlt)
      rw [← keysWith_move laws q s (by omega) pri] at hup
      exact (ih (q := q.put i (q.d (i / 2))) (by omega) (by omega) (by rw [put_size]; omega) hup).step laws
    · rename_i hc
      refine ⟨rfl, fun _ => rfl, h.ordered ?_⟩
      intro h2
      rw [hself, hparent h2]
      by_contra hlt
      exact hc ⟨by omega, (laws.cmppri _ _).mpr (Nat.not_le.mp hlt)⟩

/-- The child that `maxchild` gives has the least key of the two. -/
theorem maxchild_least (laws : LawfulPri ops) (q : PQueue α) (s : σ) {i j : Nat}
    (hj : 2 ≤ j) (hn : j < q.size) (hp : j / 2 = i) :
    maxchild ops q s i ≠ 0 ∧ maxchild ops q s i / 2 = i ∧
      keys ops q s (maxchild ops q s i) ≤ keys ops q s j := by
  unfold maxchild left keys
  dsimp only
  rw [if_neg (by omega)]
  split
  · rename_i hc
    have hlt := (laws.cmppri _ _).mp hc.2
    refine ⟨by omega, by omega, ?_⟩
    obtain rfl | rfl : j = 2 * i ∨ j = 2 * i + 1 := by omega
    · exact Nat.le_of_lt hlt
    · exact Nat.le_refl _
  · rename_i hc
    refine ⟨by omega, by omega, ?_⟩
    obtain rfl | rfl : j = 2 * i ∨ j = 2 * i + 1 := by omega
    · exact Nat.le_refl _
    · by_contra hlt
      exact hc ⟨hn, (laws.cmppri _ _).mpr (Nat.not_le.mp hlt)⟩

theorem percolateDownLoop_sifted (laws : LawfulPri ops) (pri fuel : Nat) {q : PQueue α} {s : σ} {i : Nat}
    (hi : 1 ≤ i) (hfuel : q.size ≤ i + fuel) (hn : i < q.size)
    (h : Sinking (keysWith ops q s i pri) q.size i) :
    Sifted ops q s pri (percolateDownLoop ops pri fuel q s i).1 (percolateDownLoop ops pri fuel q s i).2.1
      (percolateDownLoop ops pri fuel q s i).2.2 := by
  induction fuel generalizing q s i with
  | zero => omega
  | succ fuel ih =>
    have hself : keysWith ops q s i pri i = pri := Function.update_self _ _ _
    have hchild : ∀ j, i < j → keysWith ops q s i pri j = keys ops q s j :=
      fun j hj => Function.update_of_ne (by omega) _ _
    unfold percolateDownLoop
    dsimp only
    split
    · rename_i hc
      obtain ⟨hgt, hlt⟩ := maxchild_range q s hi hc.1
      have hpri := (laws.cmppri _ _).mp hc.2
      have hhalf : maxchild ops q s i / 2 = i := by
        unfold maxchild left at hc ⊢
        dsimp only at hc ⊢
        split at hc
        · exact absurd rfl hc.1
        · rename_i hle
          rw [if_neg hle]
          split <;> omega
      have hdown := h.down hi hhalf hlt (by
        intro j hj hjn hp
        rw [hchild j (by omega), hchild _ hgt]
        exact (maxchild_least laws q s hj hjn hp).2.2) (by
        rw [hself, hchild _ hgt]
        exact Nat.le_of_lt hpri)
      rw [← keysWith_move laws q s (by omega) pri] at hdown
      exact (ih (q := q.put i (q.d (maxchild ops q s i))) (by omega) (by rw [put_size]; omega)
        (by rw [put_size]; omega) hdown).step laws
    · rename_i hc
      refine ⟨rfl, fun _ => rfl, h.ordered ?_⟩
      intro j hj hjn hp
      obtain ⟨hne, _, hle⟩ := maxchild_least laws q s hj hjn hp
      rw [hself, hchild j (by omega)]
      refine Nat.le_trans ?_ hle
      by_contra hlt
      exact hc ⟨hne, (laws.cmppri _ _).mpr (Nat.not_le.mp hlt)⟩

theorem bubbleUp_heaped (laws : LawfulPri ops) {q : PQueue α} {s : σ} {i : Nat} (hi : 1 ≤ i)
    (hn : i < q.size) (h : Rising (keys ops q s) q.size i) :
    Heaped ops (bubbleUp ops q s i).1 (bubbleUp ops q s i).2 :=
  (bubbleUpLoop_sifted laws (ops.getpri s (q.d i)) i hi (Nat.le_refl i) hn
    (keysWith_self q s i ▸ h)).heaped laws

theorem percolateDown_heaped (laws : LawfulPri ops) {q : PQueue α} {s : σ} {i : Nat} (hi : 1 ≤ i)
    (hn : i < q.size) (h : Sinking (keys ops q s) q.size i) :
    Heaped ops (percolateDown ops q s i).1 (percolateDown ops q s i).2 :=
  (percolateDownLoop_sifted laws (ops.getpri s (q.d i)) q.size hi (by omega) hn
    (keysWith_self q s i ▸ h)).heaped laws

theorem pqueueInsert_heaped (laws : LawfulPri ops) {q q' : PQueue α} {s s' : σ} {x : α}
    (hs : 1 ≤ q.size) (h : Heaped ops q s) (hins : pqueueInsert ops q s x = .ok (q', s')) :
    Heaped ops q' s' := by
  unfold pqueueInsert at hins
  split at hins
  · cases hins
  · cases hins
    refine bubbleUp_heaped laws hs (Nat.lt_succ_self _) ?_
    have hkeys : keys ops ({ q with size := q.size + 1 }.put q.size x) s =
        Function.update (keys ops q s) q.size (ops.getpri s x) := by
      funext j
      unfold keys
      by_cases hj : j = q.size
      · subst hj
        rw [put_same, Function.update_self]
      · rw [put_other _ _ hj, Function.update_of_ne hj]
    rw [hkeys]
    exact h.push _

/-- The keys after the priority of the element in slot `i` has been set. -/
theorem keys_setpri (laws : LawfulPri ops) {q : PQueue α} {s : σ} {E : α → Prop} (hq : Holds ops q s E)
    {i : Nat} (hi : 1 ≤ i) (hn : i < q.size) (pri : Nat) :
    ∀ j, 1 ≤ j → j < q.size →
      keys ops q (ops.setpri s (q.d i) pri) j = Function.update (keys ops q s) i pri j := by
  intro j hj hjn
  unfold keys
  rw [laws.getpri_setpri]
  by_cases hji : j = i
  · subst hji
    rw [if_pos rfl, Function.update_self]
  · rw [if_neg (fun he => hji (hq.inj hj hjn hi hn he)), Function.update_of_ne hji]

theorem pqueueChangePriority_heaped (laws : LawfulPri ops) {q : PQueue α} {s : σ} {x : α} {E : α → Prop}
    (hlaws : LawfulOps ops) (hq : Holds ops q s E) (hx : E x) (h : Heaped ops q s) (newPri : Nat) :
    Heaped ops (pqueueChangePriority ops q s newPri x).1 (pqueueChangePriority ops q s newPri x).2 := by
  obtain ⟨hp, hp', hd⟩ := hq.pos_of_mem hx
  have hkeys := keys_setpri laws hq hp hp' newPri
  have hold : keys ops q s (ops.getpos s x) = ops.getpri s x := congrArg (ops.getpri s) hd
  rw [hd] at hkeys
  unfold pqueueChangePriority
  dsimp only
  rw [hlaws.getpos_setpri]
  split
  · rename_i hc
    have hlt := (laws.cmppri _ _).mp hc
    refine bubbleUp_heaped laws hp hp' ?_
    have hle : newPri ≤ keys ops q s (ops.getpos s x) := hold ▸ Nat.le_of_lt hlt
    exact (h.rising hle).congr hkeys
  · rename_i hc
    have hle : ops.getpri s x ≤ newPri := by
      by_contra hlt
      exact hc ((laws.cmppri _ _).mpr (Nat.not_le.mp hlt))
    refine percolateDown_heaped laws hp hp' ?_
    exact (h.sinking (hold ▸ hle)).congr hkeys

theorem pqueuePop_heaped (laws : LawfulPri ops) {q q' : PQueue α} {s s' : σ} {x : α} {E : α → Prop}
    (hlaws : LawfulOps ops) (hq : Holds ops q s E) (h : Heaped ops q s)
    (hpop : pqueuePop ops q s = some (x, q', s')) : Heaped ops q' s' := by
  have hsize : q.size ≠ 1 → q'.size = q.size - 1 := by
    intro hne
    obtain ⟨q₁, s₁, hpop₁, _, hsize, _⟩ := pqueuePop_spec hlaws hq hne
    rw [hpop] at hpop₁
    cases hpop₁
    exact hsize
  unfold pqueuePop at hpop
  split at hpop
  · cases hpop
  · rename_i hne
    have hsize := hsize hne
    cases hpop
    by_cases hone : q.size - 1 ≤ 1
    · -- nothing is left to compare
      intro j hj hjn
      omega
    · refine percolateDown_heaped laws (Nat.le_refl 1) (by rw [put_size]; dsimp only; omega) ?_
      change Sinking (keys ops (q.refill 1) s) _ _
      rw [keys_refill]
      exact h.replaceRoot (Nat.sub_le _ _) _

theorem cmppri_irrefl (laws : LawfulPri ops) (a : Nat) : ops.cmppri a a = false := by
  rw [← Bool.not_eq_true, laws.cmppri]
  exact Nat.lt_irrefl a

theorem pqueueRemove_heaped (laws : LawfulPri ops) {q : PQueue α} {s : σ} {x : α} {E : α → Prop}
    (hq : Holds ops q s E) (hx : E x) (h : Heaped ops q s) :
    Heaped ops (pqueueRemove ops q s x).1 (pqueueRemove ops q s x).2 := by
  obtain ⟨hp, hp', hd⟩ := hq.pos_of_mem hx
  have hshort : Ordered (keys ops q s) (q.size - 1) := h.shorten (Nat.sub_le _ _)
  have hold : keys ops q s (ops.getpos s x) = ops.getpri s x := congrArg (ops.getpri s) hd
  have hkeys : keys ops (q.refill _) s = _ := keys_refill q s (ops.getpos s x)
  rw [pqueueRemove_eq]
  by_cases hlast : ops.getpos s x = q.size - 1
  · -- the keys that are left stay where they were
    have hend : q.d (q.size - 1) = x := by rw [← hlast, hd]
    rw [hend, cmppri_irrefl laws, if_neg Bool.false_ne_true,
      percolateDown_leaf _ _ (by rw [refill_size, left]; omega)]
    intro j hj hjn
    rw [refill_size] at hjn
    change ops.getpri _ _ ≤ ops.getpri _ _
    rw [laws.getpri_setpos, laws.getpri_setpos, refill_other _ (by omega), refill_other _ (by omega)]
    exact hshort j hj hjn
  · split
    · rename_i hc
      have hlt := (laws.cmppri _ _).mp hc
      refine bubbleUp_heaped laws hp (by rw [refill_size]; omega) ?_
      rw [hkeys, refill_size]
      exact hshort.rising (hold ▸ Nat.le_of_lt hlt)
    · rename_i hc
      have hle : ops.getpri s x ≤ ops.getpri s (q.d (q.size - 1)) := by
        by_contra hlt
        exact hc ((laws.cmppri _ _).mpr (Nat.not_le.mp hlt))
      refine percolateDown_heaped laws hp (by rw [refill_size]; omega) ?_
      rw [hkeys, refill_size]
      exact hshort.sinking (hold ▸ hle)

theorem subtreeIsValid_iff (laws : LawfulPri ops) (q : PQueue α) (s : σ) {fuel pos : Nat} (hpos : 1 ≤ pos)
    (hfuel : q.size ≤ pos + fuel) :
    subtreeIsValid ops q s fuel pos = true ↔ OrderedUnder (keys ops q s) q.size pos := by
  induction fuel generalizing pos with
  | zero => exact ⟨fun _ => OrderedUnder.of_le hfuel, fun _ => rfl⟩
  | succ fuel ih =>
    have hchild : ∀ c, pos < c → ((if c < q.size then
          if ops.cmppri (ops.getpri s (q.d pos)) (ops.getpri s (q.d c)) then false
          else subtreeIsValid ops q s fuel c
        else true) = true ↔
        (c < q.size → keys ops q s pos ≤ keys ops q s c ∧ OrderedUnder (keys ops q s) q.size c)) := by
      intro c hc
      by_cases hcn : c < q.size
      · rw [if_pos hcn, ← ih (by omega) (by omega)]
        by_cases hle : keys ops q s pos ≤ keys ops q s c
        · have hcmp : ¬ ops.cmppri (ops.getpri s (q.d pos)) (ops.getpri s (q.d c)) = true :=
            fun hlt => Nat.not_lt.mpr hle ((laws.cmppri _ _).mp hlt)
          rw [if_neg hcmp]
          exact ⟨fun hv _ => ⟨hle, hv⟩, fun hv => (hv hcn).2⟩
        · have hcmp : ops.cmppri (ops.getpri s (q.d pos)) (ops.getpri s (q.d c)) = true :=
            (laws.cmppri _ _).mpr (Nat.not_le.mp hle)
          rw [if_pos hcmp]
          exact ⟨fun hf => absurd hf Bool.false_ne_true, fun hv => absurd (hv hcn).1 hle⟩
      · rw [if_neg hcn]
        exact ⟨fun _ hlt => absurd hlt hcn, fun _ => rfl⟩
    have hl : pos < left pos := by unfold left; omega
    have hr : pos < right pos := by unfold right; omega
    unfold subtreeIsValid
    dsimp only
    rw [Bool.and_eq_true, hchild _ hl, hchild _ hr, orderedUnder_iff pos]
    constructor
    · rintro ⟨hleft, hright⟩ c hc hcn
      obtain rfl | rfl : c = left pos ∨ c = right pos := by
        unfold left right
        omega
      · exact hleft hcn
      · exact hright hcn
    · intro h
      exact ⟨h _ (by unfold left; omega), h _ (by unfold right; omega)⟩

/-- `pqueue_is_valid` decides the heap order. -/
theorem pqueueIsValid_iff (laws : LawfulPri ops) (q : PQueue α) (s : σ) :
    pqueueIsValid ops q s = true ↔ Heaped ops q s :=
  (subtreeIsValid_iff laws q s (Nat.le_refl 1) (by omega)).trans orderedUnder_one

end PQueue

end NVMeVirt
