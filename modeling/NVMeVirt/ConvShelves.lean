import NVMeVirt.ConvInvariant

/-!
# Lines move between the containers

Taking a line out of a container leaves it with a loose home (a write pointer or the
collector), putting one in needs a loose home. Every function of the FTL that moves a line
is one or two of these moves.
-/

namespace NVMeVirt
set_option autoImplicit false
open Outcome PQueue

def Home.Loose (k : Home) : Prop := k ≠ .free ∧ k ≠ .full ∧ k ≠ .victim

theorem IoType.home_loose (io : IoType) : io.home.Loose := by
  cases io <;> exact ⟨by decide, by decide, by decide⟩

theorem setLine_other (lm : LineMgmt) (line : Line) {x y : Nat} (hy : y ≠ x) :
    (lm.setLine x line).lines y = lm.lines y := Function.update_of_ne hy _ _

theorem setLine_same (lm : LineMgmt) (line : Line) (x : Nat) : (lm.setLine x line).lines x = line :=
  Function.update_self _ _ _

/-- A field of the line table that an assignment to line `x` leaves alone. -/
theorem setLine_field {β : Type} (f : Line → β) (lm : LineMgmt) {line : Line} {x : Nat}
    (hf : f line = f (lm.lines x)) (y : Nat) : f ((lm.setLine x line).lines y) = f (lm.lines y) := by
  by_cases hy : y = x
  · subst hy
    rw [setLine_same, hf]
  · rw [setLine_other _ _ hy]

theorem setLine_setLine (lm : LineMgmt) (x : Nat) (a b : Line) :
    (lm.setLine x a).setLine x b = lm.setLine x b := by
  unfold LineMgmt.setLine
  simp

theorem victimLineOps_laws : LawfulOps victimLineOps := by
  refine ⟨?_, ?_, ?_⟩
  · intro s x p
    simp [victimLineOps]
  · intro s x y p hne
    simp [victimLineOps, hne]
  · intro s x y p
    by_cases hy : y = x
    · subst hy
      simp [victimLineOps]
    · simp [victimLineOps, hy]

/-- Two line tables that differ in the positions of the lines of `E` only. -/
structure Reposed (E : Nat → Prop) (lines lines' : Nat → Line) : Prop where
  id : ∀ y, (lines' y).id = (lines y).id
  ipc : ∀ y, (lines' y).ipc = (lines y).ipc
  vpc : ∀ y, (lines' y).vpc = (lines y).vpc
  pos : ∀ y, ¬ E y → (lines' y).pos = (lines y).pos

theorem Reposed.of_store {E : Nat → Prop} {lines lines' : Nat → Line}
    (hst : ∀ {β : Type} (f : (Nat → Line) → β),
      (∀ t x p, E x → f (victimLineOps.setpos t x p) = f t) → f lines' = f lines) :
    Reposed E lines lines' := by
  have hfield : ∀ {β : Type} (a : Line → β), (∀ (ln : Line) p, a { ln with pos := p } = a ln) →
      ∀ y, a (lines' y) = a (lines y) := by
    intro β a ha y
    refine hst (fun t => a (t y)) ?_
    intro t x p _
    by_cases hy : y = x
    · subst hy
      simp [victimLineOps, ha]
    · simp [victimLineOps, hy]
  refine ⟨hfield Line.id fun _ _ => rfl, hfield Line.ipc fun _ _ => rfl,
    hfield Line.vpc fun _ _ => rfl, ?_⟩
  intro y hy
  refine hst (fun t => (t y).pos) ?_
  intro t x p hx
  have hne : y ≠ x := by
    rintro rfl
    exact hy hx
  simp [victimLineOps, hne]

variable {spp : SsdParams} {lm : LineMgmt} {h : Nat → Home}

theorem Shelved.pq_room (a : Shelved spp lm h) {x : Nat} (hx : x < spp.blksPerPl)
    (hk : h x ≠ .victim) : lm.victimLinePq.size < lm.victimLinePq.avail := by
  have hle := a.pq.size_le_card ((Finset.range spp.blksPerPl).erase x) (by
    rintro y ⟨hy, hyk⟩
    refine Finset.mem_erase.mpr ⟨?_, Finset.mem_range.mpr hy⟩
    rintro rfl
    exact hk hyk)
  rw [Finset.card_erase_of_mem (Finset.mem_range.mpr hx), Finset.card_range] at hle
  rw [a.pq_avail]
  omega

theorem holds_of_pos {q : PQueue Nat} {lines lines' : Nat → Line} {E : Nat → Prop}
    (hq : Holds victimLineOps q lines E) (hpos : ∀ y, (lines' y).pos = (lines y).pos) :
    Holds victimLineOps q lines' E :=
  ⟨hq.size_pos, fun j hj hj' => (hpos _).trans (hq.at_pos j hj hj'), hq.mem⟩

theorem Shelved.of_counters (a : Shelved spp lm h) {lines' : Nat → Line}
    (hid : ∀ y, (lines' y).id = (lm.lines y).id) (hpos : ∀ y, (lines' y).pos = (lm.lines y).pos) :
    Shelved spp { lm with lines := lines' } h := by
  refine ⟨a.free_mem, a.full_mem, a.free_nodup, a.full_nodup, a.free_cnt, a.full_cnt, a.victim_cnt,
    holds_of_pos a.pq hpos, a.pq_avail, ?_, ?_⟩
  · intro x hx hk
    exact (hpos x).trans (a.pos_zero x hx hk)
  · intro x hx
    exact (hid x).trans (a.line_id x hx)

theorem update_home_iff {x y : Nat} {k k' : Home} (hx : h x ≠ k') (hk : k ≠ k') :
    Function.update h x k y = k' ↔ h y = k' := by
  by_cases hy : y = x
  · subst hy
    rw [Function.update_self]
    exact ⟨fun he => absurd he hk, fun he => absurd he hx⟩
  · rw [Function.update_of_ne hy]

theorem Shelved.put_full (a : Shelved spp lm h) {x : Nat} (hx : x < spp.blksPerPl)
    (hk : (h x).Loose) :
    Shelved spp { lm with fullLineList := lm.fullLineList ++ [x], fullLineCnt := lm.fullLineCnt + 1 }
      (Function.update h x .full) := by
  obtain ⟨hk₁, hk₂, hk₃⟩ := hk
  have hnot : x ∉ lm.fullLineList := fun hm => hk₂ ((a.full_mem x).mp hm).2
  refine ⟨?_, ?_, a.free_nodup, ?_, a.free_cnt, ?_, a.victim_cnt, ?_, a.pq_avail, ?_, a.line_id⟩
  · intro y
    rw [update_home_iff hk₁ (by decide), a.free_mem y]
  · intro y
    rw [List.mem_append, List.mem_singleton, a.full_mem y]
    by_cases hy : y = x
    · subst hy
      simp [hx]
    · simp [hy]
  · exact a.full_nodup.append (List.nodup_singleton x) (by simpa using hnot)
  · change lm.fullLineCnt + 1 = (lm.fullLineList ++ [x]).length
    rw [List.length_append, a.full_cnt]
    rfl
  · exact a.pq.congr (fun y => by rw [update_home_iff hk₃ (by decide)])
  · intro y hy hky
    exact a.pos_zero y hy (fun he => hky ((update_home_iff hk₃ (by decide)).mpr he))

theorem Shelved.take_full (a : Shelved spp lm h) {x : Nat} (hx : x < spp.blksPerPl)
    (hk : h x = .full) :
    Shelved spp { listDelInit lm x with fullLineCnt := lm.fullLineCnt - 1 }
      (Function.update h x .held) := by
  have hfree : x ∉ lm.freeLineList := by
    intro hm
    have hf := ((a.free_mem x).mp hm).2
    rw [hk] at hf
    exact nomatch hf
  have hdel : (listDelInit lm x).freeLineList = lm.freeLineList := List.erase_of_not_mem hfree
  refine ⟨?_, ?_, ?_, a.full_nodup.erase x, ?_, ?_, a.victim_cnt, ?_, a.pq_avail, ?_, a.line_id⟩
  · intro y
    dsimp only
    rw [hdel, update_home_iff (by simp [hk]) (by decide), a.free_mem y]
  · intro y
    change y ∈ lm.fullLineList.erase x ↔ _
    rw [a.full_nodup.mem_erase_iff, a.full_mem y]
    by_cases hy : y = x
    · subst hy
      simp
    · simp [hy]
  · dsimp only
    rw [hdel]
    exact a.free_nodup
  · dsimp only
    rw [hdel]
    exact a.free_cnt
  · change lm.fullLineCnt - 1 = (lm.fullLineList.erase x).length
    rw [List.length_erase_of_mem ((a.full_mem x).mpr ⟨hx, hk⟩), a.full_cnt]
  · exact a.pq.congr (fun y => by rw [update_home_iff (by simp [hk]) (by decide)])
  · intro y hy hky
    exact a.pos_zero y hy (fun he => hky ((update_home_iff (by simp [hk]) (by decide)).mpr he))

/-- Inserting into the victim queue never runs out of its array. -/
theorem Shelved.put_victim (a : Shelved spp lm h) {x : Nat} (hx : x < spp.blksPerPl)
    (hk : (h x).Loose) :
    ∃ pq lines, pqueueInsert victimLineOps lm.victimLinePq lm.lines x = .ok (pq, lines) ∧
      Reposed (fun y => y = x ∨ y < spp.blksPerPl ∧ h y = .victim) lm.lines lines ∧
      Shelved spp { lm with victimLinePq := pq, lines := lines, victimLineCnt := lm.victimLineCnt + 1 }
        (Function.update h x .victim) := by
  obtain ⟨hk₁, hk₂, hk₃⟩ := hk
  obtain ⟨pq, lines, hins, hh, hsize, havail, hst⟩ :=
    pqueueInsert_spec (x := x) victimLineOps_laws a.pq (fun hc => hk₃ hc.2) (a.pq_room hx hk₃)
  have hr := Reposed.of_store hst
  refine ⟨pq, lines, hins, hr, ?_, ?_, a.free_nodup, a.full_nodup, a.free_cnt, a.full_cnt, ?_, ?_,
    havail.trans a.pq_avail, ?_, ?_⟩
  · intro y
    rw [update_home_iff hk₁ (by decide), a.free_mem y]
  · intro y
    rw [update_home_iff hk₂ (by decide), a.full_mem y]
  · change lm.victimLineCnt + 1 + 1 = pq.size
    rw [hsize, ← a.victim_cnt]
  · refine hh.congr ?_
    intro y
    by_cases hy : y = x
    · subst hy
      simp [hx]
    · simp [hy]
  · intro y hy hky
    have hyx : y ≠ x := by
      rintro rfl
      exact hky (Function.update_self _ _ _)
    rw [Function.update_of_ne hyx] at hky
    refine (hr.pos y ?_).trans (a.pos_zero y hy hky)
    rintro (hc | hc)
    · exact hyx hc
    · exact hky hc.2
  · intro y hy
    exact (hr.id y).trans (a.line_id y hy)

/-- The head of the free list goes to a write pointer. -/
theorem Shelved.take_free (a : Shelved spp lm h) {y : Nat} {rest : List Nat}
    (hfree : lm.freeLineList = y :: rest) {k : Home} (hk : k.Loose) :
    Shelved spp { lm with freeLineList := rest, freeLineCnt := lm.freeLineCnt - 1 }
      (Function.update h y k) := by
  obtain ⟨hk₁, hk₂, hk₃⟩ := hk
  have hmem := a.free_mem
  have hnodup := a.free_nodup
  have hcnt := a.free_cnt
  rw [hfree] at hmem hnodup hcnt
  have hy : h y = .free := ((hmem y).mp List.mem_cons_self).2
  refine ⟨?_, ?_, hnodup.of_cons, a.full_nodup, ?_, a.full_cnt, a.victim_cnt, ?_, a.pq_avail, ?_,
    a.line_id⟩
  · intro x
    by_cases hx : x = y
    · subst hx
      simp [(List.nodup_cons.mp hnodup).1, hk₁]
    · rw [Function.update_of_ne hx, ← hmem x]
      simp [hx]
  · intro x
    rw [update_home_iff (by simp [hy]) hk₂, a.full_mem x]
  · change lm.freeLineCnt - 1 = rest.length
    rw [hcnt]
    rfl
  · exact a.pq.congr (fun x => by rw [update_home_iff (by simp [hy]) hk₃])
  · intro x hx hkx
    exact a.pos_zero x hx (fun he => hkx ((update_home_iff (by simp [hy]) hk₃).mpr he))

theorem Shelved.put_free (a : Shelved spp lm h) {x : Nat} (hx : x < spp.blksPerPl)
    (hk : (h x).Loose) :
    Shelved spp { lm with freeLineList := lm.freeLineList ++ [x], freeLineCnt := lm.freeLineCnt + 1 }
      (Function.update h x .free) := by
  obtain ⟨hk₁, hk₂, hk₃⟩ := hk
  have hnot : x ∉ lm.freeLineList := fun hm => hk₁ ((a.free_mem x).mp hm).2
  refine ⟨?_, ?_, ?_, a.full_nodup, ?_, a.full_cnt, a.victim_cnt, ?_, a.pq_avail, ?_, a.line_id⟩
  · intro y
    rw [List.mem_append, List.mem_singleton, a.free_mem y]
    by_cases hy : y = x
    · subst hy
      simp [hx]
    · simp [hy]
  · intro y
    rw [update_home_iff hk₂ (by decide), a.full_mem y]
  · exact a.free_nodup.append (List.nodup_singleton x) (by simpa using hnot)
  · change lm.freeLineCnt + 1 = (lm.freeLineList ++ [x]).length
    rw [List.length_append, a.free_cnt]
    rfl
  · exact a.pq.congr (fun y => by rw [update_home_iff hk₃ (by decide)])
  · intro y hy hky
    exact a.pos_zero y hy (fun he => hky ((update_home_iff hk₃ (by decide)).mpr he))

/-- The root of the victim queue goes to the collector, which clears its position. -/
theorem Shelved.take_victim (a : Shelved spp lm h) (hne : lm.victimLinePq.size ≠ 1) :
    ∃ pq lines, pqueuePop victimLineOps lm.victimLinePq lm.lines =
        some (lm.victimLinePq.d 1, pq, lines) ∧
      (lm.victimLinePq.d 1 < spp.blksPerPl ∧ h (lm.victimLinePq.d 1) = .victim) ∧
      Reposed (fun y => y < spp.blksPerPl ∧ h y = .victim) lm.lines
        (Function.update lines (lm.victimLinePq.d 1) { lines (lm.victimLinePq.d 1) with pos := 0 }) ∧
      Shelved spp { lm with
          victimLinePq := pq
          lines := Function.update lines (lm.victimLinePq.d 1) { lines (lm.victimLinePq.d 1) with pos := 0 }
          victimLineCnt := lm.victimLineCnt - 1 }
        (Function.update h (lm.victimLinePq.d 1) .held) := by
  have hs := a.pq.size_pos
  have hroot := (a.pq.mem _).mpr ⟨1, Nat.le_refl 1, by omega, rfl⟩
  obtain ⟨pq, lines, hpop, hh, hsize, havail, hst⟩ := pqueuePop_spec victimLineOps_laws a.pq hne
  have hr := Reposed.of_store hst
  generalize lm.victimLinePq.d 1 = v at *
  have hother : ∀ y, y ≠ v → Function.update lines v { lines v with pos := 0 } y = lines y :=
    fun y hy => Function.update_of_ne hy _ _
  have hfield : ∀ {β : Type} (f : Line → β), (∀ (ln : Line) p, f { ln with pos := p } = f ln) →
      ∀ y, f (Function.update lines v { lines v with pos := 0 } y) = f (lines y) := by
    intro β f hf y
    by_cases hy : y = v
    · subst hy
      rw [Function.update_self, hf]
    · rw [hother y hy]
  have hr' : Reposed (fun y => y < spp.blksPerPl ∧ h y = .victim) lm.lines
      (Function.update lines v { lines v with pos := 0 }) := by
    refine ⟨fun y => (hfield Line.id (fun _ _ => rfl) y).trans (hr.id y),
      fun y => (hfield Line.ipc (fun _ _ => rfl) y).trans (hr.ipc y),
      fun y => (hfield Line.vpc (fun _ _ => rfl) y).trans (hr.vpc y), ?_⟩
    intro y hy
    have hyv : y ≠ v := by
      rintro rfl
      exact hy hroot
    rw [hother y hyv]
    exact hr.pos y hy
  refine ⟨pq, lines, hpop, hroot, hr', ?_, ?_, a.free_nodup, a.full_nodup, a.free_cnt, a.full_cnt, ?_, ?_,
    havail.trans a.pq_avail, ?_, ?_⟩
  · intro y
    rw [update_home_iff (by simp [hroot.2]) (by decide), a.free_mem y]
  · intro y
    rw [update_home_iff (by simp [hroot.2]) (by decide), a.full_mem y]
  · have hc := a.victim_cnt
    change lm.victimLineCnt - 1 + 1 = pq.size
    omega
  · have hq : Holds victimLineOps pq (Function.update lines v { lines v with pos := 0 })
        (fun y => (y < spp.blksPerPl ∧ h y = .victim) ∧ y ≠ v) := by
      refine ⟨hh.size_pos, ?_, hh.mem⟩
      intro j hj hj'
      have hjv := ((hh.mem (pq.d j)).mpr ⟨j, hj, hj', rfl⟩).2
      change (Function.update lines v { lines v with pos := 0 } (pq.d j)).pos = j
      rw [hother _ hjv]
      exact hh.at_pos j hj hj'
    refine hq.congr ?_
    intro y
    by_cases hy : y = v
    · subst hy
      simp
    · simp [hy]
  · intro y hy hky
    by_cases hyv : y = v
    · subst hyv
      change (Function.update lines y { lines y with pos := 0 } y).pos = 0
      rw [Function.update_self]
    · rw [Function.update_of_ne hyv] at hky
      exact (hr'.pos y (fun hc => hky hc.2)).trans (a.pos_zero y hy hky)
  · intro y hy
    exact (hr'.id y).trans (a.line_id y hy)

end NVMeVirt
