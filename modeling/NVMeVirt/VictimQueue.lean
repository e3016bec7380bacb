import NVMeVirt.ConvConsistency
import NVMeVirt.ConvSteps
import NVMeVirt.PQueueOrder

/-!
# The victim queue

The priority of a queued line is its live counter `vpc`. `mark_page_invalid` goes through the
queue when `pos` says that the line is queued, all other changes of `vpc` are made directly and
meet lines that are not queued. So every step of a partition keeps the heap order, and the
root is a line with the fewest valid pages.
-/

namespace NVMeVirt
set_option autoImplicit false
open Outcome Census Heaps PQueue

variable {clk : Nat → Nat} {spp : SsdParams} {cpp : ConvParams} {M : Prop} {s s' : ConvFtl}
  {lm lm' : LineMgmt} {h : Nat → Home}

theorem victimLineOps_pri : LawfulPri victimLineOps := by
  refine ⟨?_, ?_, ?_⟩
  · intro a b
    exact decide_eq_true_iff
  · intro s x y p
    by_cases hy : y = x
    · subst hy
      simp [victimLineOps]
    · simp [victimLineOps, hy]
  · intro s x y p
    by_cases hy : y = x
    · subst hy
      simp [victimLineOps]
    · simp [victimLineOps, hy]

def VictimsOrdered (lm : LineMgmt) : Prop := Heaped victimLineOps lm.victimLinePq lm.lines

theorem VictimsOrdered.congr (ho : VictimsOrdered lm) {lines' : Nat → Line}
    (hv : ∀ j, 1 ≤ j → j < lm.victimLinePq.size →
      (lines' (lm.victimLinePq.d j)).vpc = (lm.lines (lm.victimLinePq.d j)).vpc) :
    Heaped victimLineOps lm.victimLinePq lines' := by
  intro j hj hjn
  change (lines' _).vpc ≤ (lines' _).vpc
  rw [hv j (by omega) hjn, hv (j / 2) (by omega) (by omega)]
  exact ho j hj hjn

/-- A line whose `pos` is zero is in no slot of the queue. -/
theorem Shelved.not_queued (a : Shelved spp lm h) {x : Nat} (hpos : (lm.lines x).pos = 0) (j : Nat)
    (hj : 1 ≤ j) (hjn : j < lm.victimLinePq.size) : lm.victimLinePq.d j ≠ x := by
  rintro rfl
  have hat : (lm.lines (lm.victimLinePq.d j)).pos = j := a.pq.at_pos j hj hjn
  omega

theorem Shelved.set_unqueued (a : Shelved spp lm h) (ho : VictimsOrdered lm) {x : Nat}
    (hpos : (lm.lines x).pos = 0) (line : Line) : VictimsOrdered (lm.setLine x line) := by
  refine ho.congr ?_
  intro j hj hjn
  exact congrArg Line.vpc (setLine_other lm line (a.not_queued hpos j hj hjn))

theorem shelveLine_ordered {x : Nat} (hs : 1 ≤ lm.victimLinePq.size) (ho : VictimsOrdered lm)
    (hok : shelveLine spp lm x = .ok lm') : VictimsOrdered lm' := by
  unfold shelveLine at hok
  dsimp only at hok
  split at hok
  · obtain ⟨_, hok⟩ := nvmevAssert_bind_ok.mp hok
    cases hok
    exact ho
  · obtain ⟨_, hok⟩ := nvmevAssert_bind_ok.mp hok
    obtain ⟨_, hok⟩ := nvmevAssert_bind_ok.mp hok
    obtain ⟨⟨pq, lines⟩, hins, hok⟩ := bind_eq_ok.mp hok
    cases hok
    exact pqueueInsert_heaped victimLineOps_pri hs ho hins

theorem closeLine_ordered {io : IoType} {wpp : WritePointer} (hs : 1 ≤ s.lm.victimLinePq.size)
    (ho : VictimsOrdered s.lm) (hok : closeLine spp s io wpp = .ok s') : VictimsOrdered s'.lm := by
  unfold closeLine at hok
  obtain ⟨lm₁, hsh, hok⟩ := bind_eq_ok.mp hok
  have ho₁ := shelveLine_ordered hs ho hsh
  unfold checkAddr getNextFreeLine at hok
  obtain ⟨_, hok⟩ := nvmevAssert_bind_ok.mp hok
  split at hok
  · cases hok
  · rename_i hnext
    dsimp only at hok
    obtain ⟨_, hok⟩ := nvmevAssert_bind_ok.mp hok
    obtain ⟨_, hok⟩ := nvmevAssert_bind_ok.mp hok
    obtain ⟨_, hok⟩ := nvmevAssert_bind_ok.mp hok
    obtain ⟨_, hok⟩ := nvmevAssert_bind_ok.mp hok
    obtain ⟨_, hok⟩ := nvmevAssert_bind_ok.mp hok
    cases hok
    rw [setWp_lm]
    split at hnext
    · cases hnext
    · cases hnext
      exact ho₁

theorem advanceWritePointer_ordered {io : IoType} (g : Geometry spp) (w : WpOk spp (getWp s io))
    (hs : 1 ≤ s.lm.victimLinePq.size) (ho : VictimsOrdered s.lm)
    (hok : advanceWritePointer spp s io = .ok s') : VictimsOrdered s'.lm := by
  rcases advanceWritePointer_cases g.wordlines w with ⟨wp', hmove, _⟩ | ⟨hclose, _⟩
  · rw [hok] at hmove
    cases hmove
    rw [setWp_lm]
    exact ho
  · rw [hok] at hclose
    exact closeLine_ordered hs ho hclose.symm

/-- The page under a write pointer belongs to an open line, which is not queued. -/
theorem writeNewPage_ordered (g : Geometry spp) {held : Option Nat} (hs : Sound spp s held) {io : IoType}
    {lpn : Nat} {ppa : Ppa} (ho : VictimsOrdered s.lm) (hok : writeNewPage spp s io lpn = .ok (s', ppa)) :
    VictimsOrdered s'.lm := by
  obtain ⟨h, fill, i, _, _⟩ := hs
  obtain ⟨hx, hkx⟩ := i.cur_lt io
  have hpos : (s.lm.lines (getWp s io).curline).pos = 0 :=
    i.shelved.pos_zero _ hx (by rw [hkx]; cases io <;> decide)
  obtain ⟨_, hppa, _, _, _, hadv⟩ := writeNewPage_steps hok
  rw [getNewPage_eq i g io] at hppa
  cases hppa
  have w := i.wp io
  refine advanceWritePointer_ordered g ?_ ?_ ?_ hadv
  · cases io <;> exact w
  · exact i.shelved.pq.size_pos
  · exact i.shelved.set_unqueued ho hpos _

/-- The line table of `mark_page_invalid` when the counters of line `x` have been changed: directly,
or through the queue. -/
def recounted (lm : LineMgmt) (x : Nat) : LineMgmt :=
  let line := { lm.lines x with ipc := (lm.lines x).ipc + 1 }
  let lm := lm.setLine x line
  if line.pos ≠ 0 then
    let (pq, lines) := pqueueChangePriority victimLineOps lm.victimLinePq lm.lines (line.vpc - 1) x
    { lm with victimLinePq := pq, lines := lines }
  else lm.setLine x { line with vpc := line.vpc - 1 }

theorem invalidateLine_ok {x : Nat} (hok : invalidateLine spp lm x = .ok lm') :
    lm' = recounted lm x ∨
      pqueueInsert victimLineOps (recounted lm x).victimLinePq (recounted lm x).lines x =
        .ok (lm'.victimLinePq, lm'.lines) := by
  unfold invalidateLine at hok
  obtain ⟨_, hok⟩ := nvmevAssert_bind_ok.mp hok
  dsimp only at hok
  split at hok
  · obtain ⟨_, hok⟩ := nvmevAssert_bind_ok.mp hok
    obtain ⟨_, hok⟩ := nvmevAssert_bind_ok.mp hok
    obtain ⟨⟨pq, lines⟩, hins, hok⟩ := bind_eq_ok.mp hok
    cases hok
    exact Or.inr hins
  · obtain ⟨_, hok⟩ := nvmevAssert_bind_ok.mp hok
    cases hok
    exact Or.inl rfl

theorem recounted_ordered (a : Shelved spp lm h) {x : Nat} (hx : x < spp.blksPerPl)
    (ho : VictimsOrdered lm) :
    1 ≤ (recounted lm x).victimLinePq.size ∧ VictimsOrdered (recounted lm x) := by
  unfold recounted
  dsimp only
  split
  · rename_i hpos
    have hk : h x = .victim := by
      by_contra hne
      exact hpos (a.pos_zero x hx hne)
    have hset : ∀ y, ((lm.setLine x { lm.lines x with ipc := (lm.lines x).ipc + 1 }).lines y).pos =
        (lm.lines y).pos := setLine_field Line.pos lm rfl
    have hvpc : ∀ y, ((lm.setLine x { lm.lines x with ipc := (lm.lines x).ipc + 1 }).lines y).vpc =
        (lm.lines y).vpc := setLine_field Line.vpc lm rfl
    have hq := holds_of_pos a.pq hset
    have ho₁ := ho.congr (fun j _ _ => hvpc (lm.victimLinePq.d j))
    obtain ⟨hh, _⟩ := pqueueChangePriority_spec victimLineOps_laws hq ⟨hx, hk⟩ ((lm.lines x).vpc - 1)
    exact ⟨hh.size_pos, pqueueChangePriority_heaped victimLineOps_pri victimLineOps_laws hq ⟨hx, hk⟩ ho₁ _⟩
  · rename_i hpos
    rw [setLine_setLine]
    exact ⟨a.pq.size_pos, a.set_unqueued ho (not_not.mp hpos) _⟩

theorem invalidateLine_ordered (a : Shelved spp lm h) {x : Nat} (hx : x < spp.blksPerPl)
    (ho : VictimsOrdered lm) (hok : invalidateLine spp lm x = .ok lm') : VictimsOrdered lm' := by
  obtain ⟨hs₁, ho₁⟩ := recounted_ordered a hx ho
  rcases invalidateLine_ok hok with rfl | hins
  · exact ho₁
  · exact pqueueInsert_heaped victimLineOps_pri hs₁ ho₁ hins

theorem dropOldPage_ordered {held : Option Nat} (hs : Sound spp s held) {ppa : Ppa} (ho : VictimsOrdered s.lm)
    (hok : dropOldPage spp s ppa = .ok s') : VictimsOrdered s'.lm := by
  obtain ⟨h, fill, i, _, _⟩ := hs
  rcases dropOldPage_steps hok with rfl | ⟨hblk, _, _, lm₁, hline, rfl⟩
  · exact ho
  · exact invalidateLine_ordered i.shelved hblk ho hline

/-- What the line table keeps at every step: the lines have homes, and the queue is in order. -/
structure VictimsOk (spp : SsdParams) (lm : LineMgmt) : Prop where
  shelved : ∃ h, Shelved spp lm h
  ordered : VictimsOrdered lm

/-- The root is taken out, and its `pos` cleared afterwards. -/
theorem selectVictimLine_victimsOk (a : Shelved spp s.lm h) (ho : VictimsOrdered s.lm) {force : Bool}
    {v : Nat} (hsel : selectVictimLine spp s force = some (v, s')) : VictimsOk spp s'.lm := by
  unfold selectVictimLine pqueuePeek at hsel
  by_cases hempty : s.lm.victimLinePq.size = 1
  · rw [if_pos hempty] at hsel
    cases hsel
  · rw [if_neg hempty] at hsel
    obtain ⟨pq, lines, hpop, _, _, a'⟩ := a.take_victim hempty
    dsimp only at hsel
    rw [hpop] at hsel
    split at hsel
    · cases hsel
    cases hsel
    have ho₁ := pqueuePop_heaped victimLineOps_pri victimLineOps_laws a.pq ho hpop
    have ho₂ : VictimsOrdered { s.lm with victimLinePq := pq, lines := lines } := ho₁
    refine ⟨⟨_, a'⟩, ho₂.congr ?_⟩
    intro j _ _
    exact victimLineOps_pri.getpri_setpos lines _ (pq.d j) 0

/-- The collected line is not queued while its counters are cleared. -/
theorem lineFreed_victimsOk (a : Shelved spp s.lm h) (ho : VictimsOrdered s.lm) {v : Nat}
    (hv : v < spp.blksPerPl) (hkv : h v = .held) : VictimsOk spp (lineFreed s v).lm := by
  have a₁ : Shelved spp (s.lm.setLine v { s.lm.lines v with ipc := 0, vpc := 0 }) h :=
    a.of_counters (setLine_field Line.id s.lm rfl) (setLine_field Line.pos s.lm rfl)
  have hpos := a.pos_zero v hv (by simp [hkv])
  exact ⟨⟨_, a₁.put_free hv (by rw [hkv]; exact ⟨by decide, by decide, by decide⟩)⟩,
    a.set_unqueued ho hpos _⟩

theorem Sound.shelved {held : Option Nat} (hs : Sound spp s held) : ∃ h, Shelved spp s.lm h := by
  obtain ⟨h, fill, i, _, _⟩ := hs
  exact ⟨h, i.shelved⟩

theorem VictimsOk.step (g : 0 < spp.ttPgs → Geometry spp) (k : VictimsOk spp s.lm)
    (hstep : FtlStep spp s s') : VictimsOk spp s'.lm := by
  cases hstep with
  | link pcie ticks => exact k
  | drop hs hl hok =>
    have hsat := dropOldPage_sat (g (by omega)) hs (M := False) (fun hf => hf.elim) hl
    exact ⟨(hsat.of_ok hok).1.shelved, dropOldPage_ordered hs k.ordered hok⟩
  | write hs hok =>
    have g := g (Nat.zero_lt_of_lt (writeNewPage_steps hok).1)
    exact ⟨((writeNewPage_sat g hs _ _).of_ok hok).1.shelved, writeNewPage_ordered g hs k.ordered hok⟩
  | select hs hsel =>
    obtain ⟨h, a⟩ := hs.shelved
    exact selectVictimLine_victimsOk a k.ordered hsel
  | recount wfc n => exact k
  | erase c l p hs => exact k
  | endtime ppa t => exact k
  | free hs hv =>
    obtain ⟨h, fill, i, _, hheld⟩ := hs
    exact lineFreed_victimsOk i.shelved k.ordered hv ((hheld _).mpr rfl)

theorem FtlRun.victimsOk {log : List NandEvent} (g : 0 < spp.ttPgs → Geometry spp) (k : VictimsOk spp s.lm)
    (run : FtlRun clk spp s log s') : VictimsOk spp s'.lm :=
  run.keeps (P := fun t => VictimsOk spp t.lm) k (fun k _ _ => k) (fun k hstep => k.step g hstep)

section Run

variable {cfg : ConvConfig} {mem : Nat → Leftover} {size : Nat} {host : ConvNs → NvmevRequest → Prop}
  {ns : ConvNs} {ops : List InternalOp} {i : Nat} {log : List NandEvent}

theorem freshLines_victimsOk (mem : Leftover) (hl : spp.blksPerPl = spp.ttLines) (h2 : 2 ≤ spp.blksPerPl) :
    VictimsOk spp (freshLines spp mem) := by
  refine ⟨⟨_, freshFtl_shelved hl h2⟩, ?_⟩
  intro j hj hj'
  exact absurd hj' (Nat.not_lt.mpr (Nat.le_of_succ_le hj))

theorem Slept.victimsOk {mem : Leftover} {ssd : Ssd} (hs : Slept (freshFtl spp mem ssd) s)
    (hl : spp.blksPerPl = spp.ttLines) (h2 : 2 ≤ spp.blksPerPl) : VictimsOk spp s.lm := by
  obtain ⟨ssd', rfl, _⟩ := hs
  exact freshLines_victimsOk mem hl h2

theorem Reachable.victimsOk (hr : Reachable clk cfg mem size host spp ns ops) (hpos : 0 < spp.ttPgs) :
    ∀ i < ns.nrParts, VictimsOk spp (ns.load i).lm := by
  have g := hr.geometry hpos
  induction hr with
  | init h =>
    intro i hi
    have hf := convInitNamespace_ok h
    rw [hf.load i hi]
    exact freshLines_victimsOk (mem i) hf.lines hf.two_le
  | command hr _ h ih =>
    intro i hi
    have k := (hr.nsOk hpos).1
    obtain ⟨log, hrun⟩ := convProcNvmeIoCmd_run k g h i
    rw [(convProcNvmeIoCmd_keeps k g h).2.1] at hi
    exact hrun.victimsOk (fun _ => g) (ih i hi)
  | release _ _ ih => exact ih

theorem AtCollection.victimsOk (hc : AtCollection clk cfg host spp ns i s)
    (hr : Reachable clk cfg mem size host spp ns ops) (hi : i < ns.nrParts) : VictimsOk spp s.lm := by
  rcases Nat.eq_zero_or_pos spp.ttPgs with hz | hpos
  · obtain ⟨ns₀, hf⟩ := hr.fresh
    exact (hc.slept hz hr hi).victimsOk hf.lines hf.two_le
  · obtain ⟨log, hrun⟩ := hc.run (hr.nsOk hpos).1 (hr.geometry hpos) hi
    exact hrun.victimsOk (fun _ => hr.geometry hpos) (hr.victimsOk hpos i hi)

structure QueueCoherent (spp : SsdParams) (s : ConvFtl) : Prop where
  absent : ∀ x < spp.ttLines, (s.lm.lines x).pos = 0 ↔ x ∉ s.lm.victimLinePq.elems
  position : ∀ x < spp.ttLines, ∀ j, 1 ≤ j → j < s.lm.victimLinePq.size →
    (s.lm.victimLinePq.d j = x ↔ (s.lm.lines x).pos = j)
  ordered : ∀ j, 2 ≤ j → j < s.lm.victimLinePq.size →
    (s.lm.lines (s.lm.victimLinePq.d (j / 2))).vpc ≤ (s.lm.lines (s.lm.victimLinePq.d j)).vpc
  queued_le : s.lm.victimLinePq.elems.length ≤ spp.ttLines
  room : ∀ x < spp.ttLines, x ∉ s.lm.victimLinePq.elems →
    ∃ r, pqueueInsert victimLineOps s.lm.victimLinePq s.lm.lines x = .ok r

/-- Every page of line `x` has been written, and one of them is invalid. -/
structure Collectible (spp : SsdParams) (s : ConvFtl) (x : Nat) : Prop where
  line : x < spp.ttLines
  written : ∀ ppa, validPpa spp ppa → ppa.blk = x → pageStatus s ppa ≠ .free
  invalid : ∃ ppa, validPpa spp ppa ∧ ppa.blk = x ∧ pageStatus s ppa = .invalid

structure GreedyVictim (spp : SsdParams) (s : ConvFtl) : Prop where
  least : ∀ v s₁, selectVictimLine spp s true = some (v, s₁) → Collectible spp s v ∧
    ∀ x, Collectible spp s x → (s.lm.lines v).vpc ≤ (s.lm.lines x).vpc
  found : ∀ x, Collectible spp s x → selectVictimLine spp s true ≠ none

theorem VictimsOk.coherent (k : VictimsOk spp s.lm) (hl : spp.blksPerPl = spp.ttLines) :
    QueueCoherent spp s := by
  obtain ⟨h, a⟩ := k.shelved
  have hpos : ∀ x < spp.ttLines, (s.lm.lines x).pos = 0 ↔ x ∉ s.lm.victimLinePq.elems := by
    intro x hx
    rw [a.mem_victims, hl]
    constructor
    · rintro hz ⟨hx', hkx⟩
      have hp : 1 ≤ (s.lm.lines x).pos := (a.pq.pos_of_mem ⟨hl ▸ hx', hkx⟩).1
      omega
    · intro hnot
      exact a.pos_zero x (by omega) (fun hkx => hnot ⟨hx, hkx⟩)
  have hroom : ∀ x < spp.ttLines, x ∉ s.lm.victimLinePq.elems →
      s.lm.victimLinePq.size < s.lm.victimLinePq.avail := by
    intro x hx hnot
    rw [a.mem_victims, hl] at hnot
    exact a.pq_room (by omega) (fun hkx => hnot ⟨hx, hkx⟩)
  refine ⟨hpos, ?_, k.ordered, ?_, ?_⟩
  · intro x hx j hj hjn
    constructor
    · rintro rfl
      exact a.pq.at_pos j hj hjn
    · rintro rfl
      have hmem : x ∈ s.lm.victimLinePq.elems := by
        by_contra hnot
        have hz := (hpos x hx).mpr hnot
        omega
      exact (a.pq.pos_of_mem ((a.mem_victims).mp hmem)).2.2
  · have hsub : s.lm.victimLinePq.elems ⊆ List.range spp.ttLines := by
      intro x hx
      rw [List.mem_range, ← hl]
      exact ((a.mem_victims).mp hx).1
    have hle := (a.victims_nodup.subperm hsub).length_le
    rwa [List.length_range] at hle
  · intro x hx hnot
    unfold pqueueInsert
    rw [if_neg (Nat.not_le.mpr (hroom x hx hnot))]
    exact ⟨_, rfl⟩

/-- A line is fully written when its last page has been allocated. -/
theorem LineContents.written_iff {x n : Nat} (k : LineContents spp s x n) (g : Geometry spp)
    (hx : x < spp.blksPerPl) :
    (∀ ppa, validPpa spp ppa → ppa.blk = x → pageStatus s ppa ≠ .free) ↔ spp.pgsPerLine ≤ n := by
  constructor
  · intro h
    obtain ⟨c, l, p, hc, hl, hp, hlast⟩ := exists_last g
    have hr : InRange spp c l x p := ⟨hc, hl, hx, hp⟩
    by_contra hlt
    apply h (pageAt c l x p) (hr.validPpa g) rfl
    rw [(pageStatus_eq g (hr.validPpa g)).2]
    exact (k.free_iff c hc l hl p hp).mpr (by omega)
  · rintro h ppa hv rfl hfree
    obtain ⟨hr, he⟩ := pageStatus_eq (s := s) g hv
    rw [he] at hfree
    have hge := (k.free_iff _ hr.ch _ hr.lun _ hr.pg).mp hfree
    have hlt := allocIndex_lt g.wordlines hr.ch hr.lun hr.pg
    omega

theorem LineContents.ipc_pos_iff {x n : Nat} (k : LineContents spp s x n) (g : Geometry spp)
    (hx : x < spp.blksPerPl) :
    0 < (s.lm.lines x).ipc ↔ ∃ ppa, validPpa spp ppa ∧ ppa.blk = x ∧ pageStatus s ppa = .invalid := by
  rw [k.ipc]
  constructor
  · intro hpos
    by_contra hnone
    rw [grid_congr (g := fun _ _ => 0), grid_const, Nat.mul_zero] at hpos
    · exact Nat.lt_irrefl 0 hpos
    intro c hc l hl
    rw [(k.census c hc l hl).ipc]
    apply tally_eq_zero.mpr
    intro p hp
    apply hasStatus_false.mpr
    intro hst
    have hr : InRange spp c l x p := ⟨hc, hl, hx, hp⟩
    exact hnone ⟨pageAt c l x p, hr.validPpa g, rfl, (pageStatus_eq g (hr.validPpa g)).2.trans hst⟩
  · rintro ⟨ppa, hv, rfl, hst⟩
    obtain ⟨hr, he⟩ := pageStatus_eq (s := s) g hv
    apply grid_pos hr.ch hr.lun
    rw [(k.census _ hr.ch _ hr.lun).ipc]
    exact tally_pos hr.pg (hasStatus_true.mpr (he.symm.trans hst))

/-- The lines that are fully written and have an invalid page are those of the queue. -/
theorem Sound.collectible_iff (hs : Sound spp s none) (g : Geometry spp)
    (hl : spp.blksPerPl = spp.ttLines) {x : Nat} :
    Collectible spp s x ↔ x ∈ s.lm.victimLinePq.elems := by
  obtain ⟨h, fill, i, hset, hheld⟩ := hs
  have hnot : ∀ y, h y ≠ .held := fun y hy => nomatch (hheld y).mp hy
  rw [i.shelved.mem_victims]
  constructor
  · rintro ⟨hx, hwritten, hinvalid⟩
    rw [← hl] at hx
    have k := i.contents x hx (hnot x)
    have hfull := (k.written_iff g hx).mp hwritten
    have hipc := (k.ipc_pos_iff g hx).mpr hinvalid
    refine ⟨hx, ?_⟩
    cases hk : h x with
    | victim => rfl
    | free =>
      have hz := i.fill_free _ hx hk
      have hpos := line_pos g
      omega
    | user => exact absurd (i.open_fill_lt g (hset .user) hx hk) (Nat.not_lt.mpr hfull)
    | gc => exact absurd (i.open_fill_lt g (hset .gc) hx hk) (Nat.not_lt.mpr hfull)
    | held => exact absurd hk (hnot x)
    | full =>
      -- all its pages are valid, which leaves none for `ipc`
      have hvpc := i.full_vpc _ hx hk
      have hle := k.le_line g
      omega
  · rintro ⟨hx, hk⟩
    have k := i.contents x hx (hnot x)
    have hfull := i.fill_closed x hx (Or.inr hk)
    exact ⟨hl ▸ hx, (k.written_iff g hx).mpr (le_of_eq hfull.symm),
      (k.ipc_pos_iff g hx).mp (i.victim_ipc x hx hk)⟩

/-- With `force` the root is taken whenever there is one. -/
theorem selectVictimLine_force (s : ConvFtl) :
    (s.lm.victimLinePq.size = 1 ∧ selectVictimLine spp s true = none) ∨
    (s.lm.victimLinePq.size ≠ 1 ∧ ∃ s₁, selectVictimLine spp s true = some (s.lm.victimLinePq.d 1, s₁)) := by
  unfold selectVictimLine pqueuePeek pqueuePop
  by_cases hempty : s.lm.victimLinePq.size = 1
  · rw [if_pos hempty]
    exact Or.inl ⟨hempty, rfl⟩
  · rw [if_neg hempty]
    dsimp only
    rw [if_neg hempty]
    exact Or.inr ⟨hempty, _, rfl⟩

theorem VictimsOk.greedy (k : VictimsOk spp s.lm)
    (hcol : ∀ x, Collectible spp s x ↔ x ∈ s.lm.victimLinePq.elems) : GreedyVictim spp s := by
  obtain ⟨h, a⟩ := k.shelved
  have hsize : 1 ≤ s.lm.victimLinePq.size := a.pq.size_pos
  refine ⟨?_, ?_⟩
  · intro v s₁ hsel
    rcases selectVictimLine_force s with ⟨_, hnone⟩ | ⟨hne, t, hsome⟩
    · rw [hsel] at hnone
      cases hnone
    · rw [hsel] at hsome
      cases hsome
      refine ⟨(hcol _).mpr (mem_elems.mpr ⟨1, Nat.le_refl 1, by omega, rfl⟩), ?_⟩
      intro x hx
      obtain ⟨j, hj, hjn, rfl⟩ := mem_elems.mp ((hcol x).mp hx)
      exact k.ordered.root j hj hjn
  · intro x hx hnone
    obtain ⟨j, hj, hjn, _⟩ := mem_elems.mp ((hcol x).mp hx)
    rcases selectVictimLine_force s with ⟨hone, _⟩ | ⟨_, t, hsome⟩
    · omega
    · rw [hnone] at hsome
      cases hsome

theorem AtCollection.greedy (hc : AtCollection clk cfg host spp ns i s)
    (hr : Reachable clk cfg mem size host spp ns ops) (hi : i < ns.nrParts) : GreedyVictim spp s := by
  obtain ⟨ns₀, hf⟩ := hr.fresh
  refine (hc.victimsOk hr hi).greedy ?_
  intro x
  rcases Nat.eq_zero_or_pos spp.ttPgs with hz | hpos
  · have hb := (hf.derived.no_pages hf.lines hz).1
    obtain ⟨ssd, rfl, _⟩ := hc.slept hz hr hi
    constructor
    · rintro ⟨_, _, ppa, hv, _⟩
      exact absurd hv (not_validPpa_of_empty hb)
    · intro hx
      exact nomatch hx
  · exact (hc.sound (hr.nsOk hpos).1 (hr.geometry hpos) hi).1.collectible_iff (hr.geometry hpos) hf.lines

/-- The victim queue is coherent in every state that a partition comes through, and whenever a
collection begins, the victim is a line with the fewest valid pages. -/
theorem victim_queue_coherent (hr : Reachable clk cfg mem size host spp ns ops) (hi : i < ns.nrParts)
    (hc : AtCollection clk cfg host spp ns i s) :
    GreedyVictim spp s ∧ ∀ log s', FtlRun clk spp s log s' → QueueCoherent spp s' := by
  obtain ⟨ns₀, hf⟩ := hr.fresh
  refine ⟨hc.greedy hr hi, ?_⟩
  intro log s' hrun
  exact (hrun.victimsOk hr.geometry (hc.victimsOk hr hi)).coherent hf.lines

theorem victim_queue_coherent_twoPartitions : ∃ spp ns ops, Reachable (fun _ => 0) twoPartitions
      (fun _ => zeroLeftover) 90112 anyRequest spp ns ops ∧ GreedyVictim spp (ns.load 1) ∧
    ∀ log s', FtlRun (fun _ => 0) spp (ns.load 1) log s' → QueueCoherent spp s' := by
  obtain ⟨spp, ns, o, hr, _, _, h, _, hn, _⟩ := twoPartitions_write anyRequest
  have hr' := Reachable.command hr trivial h
  exact ⟨spp, o.ns, _, hr', victim_queue_coherent hr' (by omega) .rest⟩

end Run

end NVMeVirt
