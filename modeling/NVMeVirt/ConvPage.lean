import NVMeVirt.ConvShelves

/-!
# One page changes its state

`mark_page_valid` takes a free page of an open line, `mark_page_invalid` a valid page of any
line that is not being collected. Both keep the census; the second may move a line from the
full list to the victim queue.
-/

namespace NVMeVirt
set_option autoImplicit false
open Outcome Census PQueue

variable {spp : SsdParams} {s s' : ConvFtl} {h : Nat → Home} {fill : Nat → Nat}

def setStatus (b : NandBlock) (p : Nat) (st : PgStatus) : NandBlock :=
  { b with pg := Function.update b.pg p { b.pg p with status := st } }

theorem setStatus_pg (b : NandBlock) (p q : Nat) (st : PgStatus) :
    ((setStatus b p st).pg q).status = if q = p then st else (b.pg q).status := by
  by_cases hq : q = p
  · subst hq
    simp [setStatus]
  · simp [setStatus, hq]

theorem tally_setStatus_new {b : NandBlock} {n p : Nat} {st : PgStatus} (hp : p < n)
    (hne : (b.pg p).status ≠ st) :
    tally n (hasStatus (setStatus b p st) st) = tally n (hasStatus b st) + 1 := by
  apply tally_point hp
  · simp [hasStatus, setStatus_pg]
  · simp [hasStatus, hne]
  · intro q _ hq
    simp [hasStatus, setStatus_pg, hq]

theorem tally_setStatus_old {b : NandBlock} {n p : Nat} {st : PgStatus} (hp : p < n)
    (hne : (b.pg p).status ≠ st) :
    tally n (hasStatus b (b.pg p).status) =
      tally n (hasStatus (setStatus b p st) (b.pg p).status) + 1 := by
  apply tally_point hp
  · simp [hasStatus]
  · simp [hasStatus, setStatus_pg, Ne.symm hne]
  · intro q _ hq
    simp [hasStatus, setStatus_pg, hq]

theorem tally_setStatus_other {b : NandBlock} {n p : Nat} {st st' : PgStatus}
    (hnew : st' ≠ st) (hold : st' ≠ (b.pg p).status) :
    tally n (hasStatus (setStatus b p st) st') = tally n (hasStatus b st') := by
  apply tally_congr
  intro q _
  by_cases hq : q = p
  · subst hq
    simp [hasStatus, setStatus_pg, Ne.symm hnew, Ne.symm hold]
  · simp [hasStatus, setStatus_pg, hq]

def validatedBlock (b : NandBlock) (p : Nat) : NandBlock :=
  { setStatus b p .valid with vpc := b.vpc + 1 }

def invalidatedBlock (b : NandBlock) (p : Nat) : NandBlock :=
  { setStatus b p .invalid with ipc := b.ipc + 1, vpc := b.vpc - 1 }

theorem BlockCensus.validate {b : NandBlock} (hb : BlockCensus spp b) {p : Nat}
    (hp : p < spp.pgsPerBlk) (hf : (b.pg p).status = .free) :
    BlockCensus spp (validatedBlock b p) := by
  have hne : (b.pg p).status ≠ .valid := by simp [hf]
  refine ⟨?_, ?_⟩
  · exact (congrArg (· + 1) hb.vpc).trans (tally_setStatus_new hp hne).symm
  · exact hb.ipc.trans (tally_setStatus_other (by decide) (by simp [hf])).symm

theorem BlockCensus.invalidate {b : NandBlock} (hb : BlockCensus spp b) {p : Nat}
    (hp : p < spp.pgsPerBlk) (hv : (b.pg p).status = .valid) :
    BlockCensus spp (invalidatedBlock b p) := by
  have hne : (b.pg p).status ≠ .invalid := by simp [hv]
  have hold := tally_setStatus_old hp hne
  rw [hv, ← hb.vpc] at hold
  refine ⟨?_, ?_⟩
  · change b.vpc - 1 = tally spp.pgsPerBlk (hasStatus (setStatus b p .invalid) .valid)
    omega
  · exact (congrArg (· + 1) hb.ipc).trans (tally_setStatus_new hp hne).symm

theorem BlockShape.setStatus {b : NandBlock} (hb : BlockShape spp b) (p : Nat) (st : PgStatus) :
    BlockShape spp (setStatus b p st) := by
  refine ⟨hb.npgs, ?_⟩
  intro q hq
  by_cases hqp : q = p
  · subst hqp
    simpa [NVMeVirt.setStatus] using hb.nsecs q hq
  · simpa [NVMeVirt.setStatus, hqp] using hb.nsecs q hq

/-- `s'` has block `b` at (`c`, `l`, `x`) and every other block of `s`. -/
def BlockPut (s s' : ConvFtl) (c l x : Nat) (b : NandBlock) : Prop :=
  ∀ c' l' x', blockAt s' c' l' x' = if c' = c ∧ l' = l ∧ x' = x then b else blockAt s c' l' x'

theorem blockPut_setBlk (s : ConvFtl) (c l x p : Nat) (b : NandBlock) :
    BlockPut s (s.setBlk (pageAt c l x p) b) c l x b := by
  intro c' l' x'
  unfold blockAt ConvFtl.setBlk
  rw [pageAt_addr]
  by_cases hk : c' = c ∧ l' = l ∧ x' = x
  · obtain ⟨rfl, rfl, rfl⟩ := hk
    simp
  · have hne : (⟨c', l', 0, x'⟩ : BlkAddr) ≠ ⟨c, l, 0, x⟩ := by
      intro he
      cases he
      exact hk ⟨rfl, rfl, rfl⟩
    simp [hne, hk]

theorem BlockPut.same {c l x : Nat} {b : NandBlock} (hput : BlockPut s s' c l x b) :
    blockAt s' c l x = b := by
  rw [hput c l x, if_pos ⟨rfl, rfl, rfl⟩]

theorem BlockPut.other {c l x c' l' x' : Nat} {b : NandBlock} (hput : BlockPut s s' c l x b)
    (hne : ¬ (c' = c ∧ l' = l ∧ x' = x)) : blockAt s' c' l' x' = blockAt s c' l' x' := by
  rw [hput c' l' x', if_neg hne]

/-- The page (`c`, `l`, `x`, `p`) gets the status `st`; no other page changes. -/
def Restatus (s s' : ConvFtl) (c l x p : Nat) (st : PgStatus) : Prop :=
  ∀ c' l' x' p', statusAt s' c' l' x' p' =
    if c' = c ∧ l' = l ∧ x' = x ∧ p' = p then st else statusAt s c' l' x' p'

theorem BlockPut.restatus {c l x p : Nat} {st : PgStatus} {b : NandBlock}
    (hput : BlockPut s s' c l x b) (hb : b.pg = (setStatus (blockAt s c l x) p st).pg) :
    Restatus s s' c l x p st := by
  intro c' l' x' p'
  unfold statusAt
  by_cases hk : c' = c ∧ l' = l ∧ x' = x
  · obtain ⟨rfl, rfl, rfl⟩ := hk
    rw [hput.same, hb, setStatus_pg]
    simp
  · rw [hput.other hk, if_neg (fun hc => hk ⟨hc.1, hc.2.1, hc.2.2.1⟩)]

theorem LineContents.congr {x n : Nat} (k : LineContents spp s x n)
    (hb : ∀ c < spp.nchs, ∀ l < spp.lunsPerCh, blockAt s' c l x = blockAt s c l x)
    (hv : (s'.lm.lines x).vpc = (s.lm.lines x).vpc) (hi : (s'.lm.lines x).ipc = (s.lm.lines x).ipc) :
    LineContents spp s' x n := by
  refine ⟨?_, ?_, ?_, ?_⟩
  · intro c hc l hl
    rw [hb c hc l hl]
    exact k.census c hc l hl
  · rw [hv, k.vpc]
    apply grid_congr
    intro c hc l hl
    rw [hb c hc l hl]
  · rw [hi, k.ipc]
    apply grid_congr
    intro c hc l hl
    rw [hb c hc l hl]
  · intro c hc l hl p hp
    unfold statusAt
    rw [hb c hc l hl]
    exact k.free_iff c hc l hl p hp

/-- A line after one of its blocks has been replaced and its counters have followed. -/
theorem LineContents.put {c l x n n' : Nat} {b : NandBlock} (k : LineContents spp s x n)
    (hc : c < spp.nchs) (hl : l < spp.lunsPerCh) (hput : BlockPut s s' c l x b)
    (hb : BlockCensus spp b)
    (hv : (s'.lm.lines x).vpc + (blockAt s c l x).vpc = (s.lm.lines x).vpc + b.vpc)
    (hi : (s'.lm.lines x).ipc + (blockAt s c l x).ipc = (s.lm.lines x).ipc + b.ipc)
    (hfree : ∀ c' < spp.nchs, ∀ l' < spp.lunsPerCh, ∀ p < spp.pgsPerBlk,
      (statusAt s' c' l' x p = .free ↔ n' ≤ allocIndex spp c' l' p)) :
    LineContents spp s' x n' := by
  have hoth : ∀ c' < spp.nchs, ∀ l' < spp.lunsPerCh, ¬ (c' = c ∧ l' = l) →
      blockAt s' c' l' x = blockAt s c' l' x :=
    fun c' _ l' _ hne => hput.other (fun hc => hne ⟨hc.1, hc.2.1⟩)
  refine ⟨?_, ?_, ?_, hfree⟩
  · intro c' hc' l' hl'
    by_cases hk : c' = c ∧ l' = l
    · obtain ⟨rfl, rfl⟩ := hk
      rw [hput.same]
      exact hb
    · rw [hoth c' hc' l' hl' hk]
      exact k.census c' hc' l' hl'
  · have hg := grid_swap (f := fun c' l' => (blockAt s' c' l' x).vpc)
      (g := fun c' l' => (blockAt s c' l' x).vpc) hc hl
      (fun c' hc' l' hl' hne => by rw [hoth c' hc' l' hl' hne])
    rw [hput.same, ← k.vpc] at hg
    omega
  · have hg := grid_swap (f := fun c' l' => (blockAt s' c' l' x).ipc)
      (g := fun c' l' => (blockAt s c' l' x).ipc) hc hl
      (fun c' hc' l' hl' hne => by rw [hoth c' hc' l' hl' hne])
    rw [hput.same, ← k.ipc] at hg
    omega

theorem getPg_pageAt (g : Geometry spp) {c l x p : Nat} (hr : InRange spp c l x p) :
    getPg spp s (pageAt c l x p) = .ok ((blockAt s c l x).pg p) := by
  unfold getPg
  rw [if_pos (hr.validPpa g)]
  rfl

def pageValidated (s : ConvFtl) (c l x p : Nat) : ConvFtl :=
  let line := s.lm.lines x
  { s.setBlk (pageAt c l x p) (validatedBlock (blockAt s c l x) p) with
    lm := s.lm.setLine x { line with vpc := line.vpc + 1 } }

theorem pageValidated_put (s : ConvFtl) (c l x p : Nat) :
    BlockPut s (pageValidated s c l x p) c l x (validatedBlock (blockAt s c l x) p) :=
  blockPut_setBlk s c l x p _

theorem pageValidated_restatus (s : ConvFtl) (c l x p : Nat) :
    Restatus s (pageValidated s c l x p) c l x p .valid :=
  (pageValidated_put s c l x p).restatus rfl

theorem markPageValid_eq (g : Geometry spp) {c l x p : Nat} (hr : InRange spp c l x p)
    (hf : statusAt s c l x p = .free) (hb : (blockAt s c l x).vpc < spp.pgsPerBlk)
    (hl : (s.lm.lines x).vpc < spp.pgsPerLine) :
    markPageValid spp s (pageAt c l x p) = .ok (pageValidated s c l x p) := by
  have hst : ((blockAt s c l x).pg p).status = .free := hf
  have hblk : ¬ spp.blksPerPl ≤ (pageAt c l x p).blk := Nat.not_le.mpr hr.blk
  unfold markPageValid
  rw [getPg_pageAt g hr, ok_bind, nvmevAssert_true hst, ok_bind]
  dsimp only
  rw [nvmevAssert_true, ok_bind, if_neg hblk, nvmevAssert_true, ok_bind]
  · rfl
  · exact hl
  · exact hb

/-- Taking the next page of an open line. -/
theorem Inv.validate (i : Inv spp s h fill) (g : Geometry spp) {c l x p : Nat}
    (hr : InRange spp c l x p) (hopen : (h x).Open) (hidx : allocIndex spp c l p = fill x) :
    Inv spp (pageValidated s c l x p) h (Function.update fill x (fill x + 1)) := by
  have hheld : h x ≠ .held := by rcases hopen with he | he <;> simp [he]
  have hput := pageValidated_put s c l x p
  have hst := pageValidated_restatus s c l x p
  have hcont := i.contents x hr.blk hheld
  have hfree : statusAt s c l x p = .free :=
    (hcont.free_iff c hr.ch l hr.lun p hr.pg).mpr (Nat.le_of_eq hidx.symm)
  have hoth : ∀ y, y ≠ x → (pageValidated s c l x p).lm.lines y = s.lm.lines y :=
    fun y hy => setLine_other _ _ hy
  have hfill : ∀ y, y ≠ x → Function.update fill x (fill x + 1) y = fill y :=
    fun y hy => Function.update_of_ne hy _ _
  have hclosed : ∀ y, h y = .full ∨ h y = .victim ∨ h y = .free → y ≠ x := by
    rintro y hy rfl
    rcases hopen with he | he <;> simp [he] at hy
  refine ⟨fun hd => ⟨(i.perf hd).ch, (i.perf hd).pcie⟩, i.wp, i.cur, ?_, ?_, ?_, ?_, ?_, ?_, ?_, i.fits⟩
  · exact i.shelved.of_counters (setLine_field Line.id s.lm rfl) (setLine_field Line.pos s.lm rfl)
  · intro c' hc' l' hl' y hy
    rw [hput c' l' y]
    split
    · rename_i hk
      obtain ⟨rfl, rfl, rfl⟩ := hk
      have hb := (i.shape c' hc' l' hl' y hy).setStatus p .valid
      exact ⟨hb.npgs, hb.nsecs⟩
    · exact i.shape c' hc' l' hl' y hy
  · intro y hy hky
    by_cases hyx : y = x
    · subst hyx
      have hb := hcont.census c hr.ch l hr.lun
      rw [Function.update_self]
      refine hcont.put hr.ch hr.lun hput (hb.validate hr.pg hfree) ?_ ?_ ?_
      · rw [show ((pageValidated s c l y p).lm.lines y).vpc = (s.lm.lines y).vpc + 1 by
          simp [pageValidated, setLine_same]]
        simp only [validatedBlock]
        omega
      · rw [show ((pageValidated s c l y p).lm.lines y).ipc = (s.lm.lines y).ipc by
          simp [pageValidated, setLine_same]]
        rfl
      · intro c' hc' l' hl' q hq
        rw [hst c' l' y q]
        split
        · rename_i hk
          obtain ⟨rfl, rfl, -, rfl⟩ := hk
          rw [hidx]
          constructor
          · exact fun he => nomatch he
          · exact fun hle => absurd hle (by omega)
        · rename_i hk
          rw [hcont.free_iff c' hc' l' hl' q hq]
          have hne : allocIndex spp c' l' q ≠ fill y := by
            intro he
            obtain ⟨rfl, rfl, rfl⟩ := allocIndex_inj g.wordlines hc' hl' hr.ch hr.lun (he.trans hidx.symm)
            exact hk ⟨rfl, rfl, rfl, rfl⟩
          omega
    · rw [hfill y hyx]
      refine (i.contents y hy hky).congr ?_ (by rw [hoth y hyx]) (by rw [hoth y hyx])
      intro c' _ l' _
      exact hput.other (fun hk => hyx hk.2.2)
  · intro y hy hky
    rw [hfill y (hclosed y (Or.inr (Or.inr hky)))]
    exact i.fill_free y hy hky
  · intro y hy hky
    have hyx : y ≠ x := hclosed y (by rcases hky with hk | hk <;> simp [hk])
    rw [hfill y hyx]
    exact i.fill_closed y hy hky
  · intro y hy hky
    rw [hoth y (hclosed y (Or.inl hky))]
    exact i.full_vpc y hy hky
  · intro y hy hky
    rw [hoth y (hclosed y (Or.inr (Or.inl hky)))]
    exact i.victim_ipc y hy hky

/-- One valid page of line `x` became an invalid one in the line table. -/
structure LineCharged (lm lm' : LineMgmt) (x : Nat) : Prop where
  free : lm'.freeLineList = lm.freeLineList
  id : ∀ y, (lm'.lines y).id = (lm.lines y).id
  vpc : (lm'.lines x).vpc + 1 = (lm.lines x).vpc
  ipc : (lm'.lines x).ipc = (lm.lines x).ipc + 1
  other : ∀ y, y ≠ x → (lm'.lines y).vpc = (lm.lines y).vpc ∧ (lm'.lines y).ipc = (lm.lines y).ipc

/-- A full line becomes a victim with its first invalid page. -/
def retire (h : Nat → Home) (x : Nat) : Nat → Home :=
  if h x = .full then Function.update h x .victim else h

def chargedLine (line : Line) : Line := { line with ipc := line.ipc + 1, vpc := line.vpc - 1 }

theorem charged_id (lm : LineMgmt) (x y : Nat) :
    ((lm.setLine x (chargedLine (lm.lines x))).lines y).id = (lm.lines y).id := by
  apply setLine_field Line.id lm
  rfl

theorem charged_pos (lm : LineMgmt) (x y : Nat) :
    ((lm.setLine x (chargedLine (lm.lines x))).lines y).pos = (lm.lines y).pos := by
  apply setLine_field Line.pos lm
  rfl

theorem lineCharged_of {lm lm' : LineMgmt} {x : Nat} {E : Nat → Prop}
    (hfree : lm'.freeLineList = lm.freeLineList) (hv : 0 < (lm.lines x).vpc)
    (hr : Reposed E (lm.setLine x (chargedLine (lm.lines x))).lines lm'.lines) :
    LineCharged lm lm' x := by
  refine ⟨hfree, ?_, ?_, ?_, ?_⟩
  · intro y
    rw [hr.id y]
    exact charged_id lm x y
  · rw [hr.vpc x, setLine_same]
    change (lm.lines x).vpc - 1 + 1 = (lm.lines x).vpc
    omega
  · rw [hr.ipc x, setLine_same]
    rfl
  · intro y hy
    rw [hr.vpc y, hr.ipc y, setLine_other _ _ hy]
    exact ⟨rfl, rfl⟩

theorem invalidateLine_open {lm : LineMgmt} (a : Shelved spp lm h) {x : Nat} (hx : x < spp.blksPerPl)
    (hk : (h x).Open) (hi : (lm.lines x).ipc < spp.pgsPerLine) (hv : 0 < (lm.lines x).vpc)
    (hv' : (lm.lines x).vpc < spp.pgsPerLine) :
    ∃ lm', invalidateLine spp lm x = .ok lm' ∧ LineCharged lm lm' x ∧
      Shelved spp lm' (retire h x) := by
  have hnv : h x ≠ .victim := by rcases hk with he | he <;> simp [he]
  have hret : retire h x = h := if_neg (by rcases hk with he | he <;> simp [he])
  have hne : ¬ ((lm.lines x).vpc == spp.pgsPerLine) = true := by
    rw [beq_iff_eq]
    omega
  refine ⟨lm.setLine x (chargedLine (lm.lines x)), ?_, ?_, ?_⟩
  · unfold invalidateLine
    dsimp only
    rw [nvmevAssert_true hi, ok_bind, if_neg hne, nvmevAssert_true ⟨hv, Nat.le_of_lt hv'⟩, ok_bind,
      if_neg hne, if_neg (not_not.mpr (a.pos_zero x hx hnv)), setLine_setLine]
    rfl
  · exact lineCharged_of (E := fun _ => False) rfl hv
      ⟨fun _ => rfl, fun _ => rfl, fun _ => rfl, fun _ _ => rfl⟩
  · rw [hret]
    exact a.of_counters (charged_id lm x) (charged_pos lm x)

theorem invalidateLine_victim {lm : LineMgmt} (a : Shelved spp lm h) {x : Nat} (hx : x < spp.blksPerPl)
    (hk : h x = .victim) (hi : (lm.lines x).ipc < spp.pgsPerLine) (hv : 0 < (lm.lines x).vpc)
    (hv' : (lm.lines x).vpc < spp.pgsPerLine) :
    ∃ lm', invalidateLine spp lm x = .ok lm' ∧ LineCharged lm lm' x ∧
      Shelved spp lm' (retire h x) := by
  have hret : retire h x = h := if_neg (by simp [hk])
  have hne : ¬ ((lm.lines x).vpc == spp.pgsPerLine) = true := by
    rw [beq_iff_eq]
    omega
  have hpos : (lm.lines x).pos ≠ 0 := by
    have hp : 1 ≤ (lm.lines x).pos := (a.pq.pos_of_mem ⟨hx, hk⟩).1
    omega
  have hone : Holds victimLineOps lm.victimLinePq
      (lm.setLine x { lm.lines x with ipc := (lm.lines x).ipc + 1 }).lines
      (fun y => y < spp.blksPerPl ∧ h y = .victim) :=
    holds_of_pos a.pq (setLine_field Line.pos lm rfl)
  obtain ⟨hh, hf⟩ := pqueueChangePriority_spec victimLineOps_laws hone ⟨hx, hk⟩
    ((lm.lines x).vpc - 1)
  have hr := Reposed.of_store hf.store
  have hset : victimLineOps.setpri
      (lm.setLine x { lm.lines x with ipc := (lm.lines x).ipc + 1 }).lines x
      ((lm.lines x).vpc - 1) = (lm.setLine x (chargedLine (lm.lines x))).lines := by
    simp [victimLineOps, LineMgmt.setLine, chargedLine]
  rw [hset] at hr
  refine ⟨{ lm with
      victimLinePq := (pqueueChangePriority victimLineOps lm.victimLinePq
        (lm.setLine x { lm.lines x with ipc := (lm.lines x).ipc + 1 }).lines
        ((lm.lines x).vpc - 1) x).1
      lines := (pqueueChangePriority victimLineOps lm.victimLinePq
        (lm.setLine x { lm.lines x with ipc := (lm.lines x).ipc + 1 }).lines
        ((lm.lines x).vpc - 1) x).2 }, ?_, lineCharged_of rfl hv hr, ?_⟩
  · unfold invalidateLine
    dsimp only
    rw [nvmevAssert_true hi, ok_bind, if_neg hne, nvmevAssert_true ⟨hv, Nat.le_of_lt hv'⟩, ok_bind,
      if_neg hne, if_pos hpos]
    rfl
  · rw [hret]
    refine ⟨a.free_mem, a.full_mem, a.free_nodup, a.full_nodup, a.free_cnt, a.full_cnt,
      ?_, hh, hf.avail.trans a.pq_avail, ?_, ?_⟩
    · exact a.victim_cnt.trans hf.size.symm
    · intro y hy hky
      refine (hr.pos y (fun hc => hky hc.2)).trans ?_
      exact (charged_pos lm x y).trans (a.pos_zero y hy hky)
    · intro y hy
      refine (hr.id y).trans ?_
      exact (charged_id lm x y).trans (a.line_id y hy)

theorem invalidateLine_full {lm : LineMgmt} (a : Shelved spp lm h) {x : Nat} (hx : x < spp.blksPerPl)
    (hk : h x = .full) (hL : 0 < spp.pgsPerLine) (hi : (lm.lines x).ipc = 0)
    (hv : (lm.lines x).vpc = spp.pgsPerLine) :
    ∃ lm', invalidateLine spp lm x = .ok lm' ∧ LineCharged lm lm' x ∧
      Shelved spp lm' (retire h x) := by
  have hret : retire h x = Function.update h x .victim := if_pos hk
  have hnv : h x ≠ .victim := by simp [hk]
  have heq : ((lm.lines x).vpc == spp.pgsPerLine) = true := by rw [beq_iff_eq, hv]
  have hfree : x ∉ lm.freeLineList := fun hm => nomatch hk.symm.trans ((a.free_mem x).mp hm).2
  have a₁ : Shelved spp (lm.setLine x (chargedLine (lm.lines x))) h :=
    a.of_counters (charged_id lm x) (charged_pos lm x)
  have a₂ := a₁.take_full hx hk
  obtain ⟨pq, lines, hins, hr, a₃⟩ := a₂.put_victim hx (by
    rw [Function.update_self]
    exact ⟨by decide, by decide, by decide⟩)
  rw [Function.update_idem] at a₃
  refine ⟨_, ?_, lineCharged_of (List.erase_of_not_mem hfree) (by omega) hr, hret ▸ a₃⟩
  unfold invalidateLine
  dsimp only
  rw [nvmevAssert_true (by omega), ok_bind, if_pos heq, nvmevAssert_true hi, ok_bind,
    nvmevAssert_true (by omega), ok_bind, if_pos heq, if_neg (not_not.mpr (a.pos_zero x hx hnv)),
    setLine_setLine]
  dsimp only [chargedLine] at hins
  rw [hins, ok_bind]
  rfl

theorem retire_held (h : Nat → Home) (x y : Nat) : retire h x y = .held ↔ h y = .held := by
  unfold retire
  split
  · rename_i hk
    by_cases hy : y = x
    · subst hy
      simp [hk]
    · simp [hy]
  · exact Iff.rfl

theorem retire_open {x y : Nat} {k : Home} (hk : k.Open ∨ k = .free) :
    retire h x y = k ↔ h y = k := by
  unfold retire
  split
  · rename_i hf
    by_cases hy : y = x
    · subst hy
      rw [Function.update_self, hf]
      rcases hk with (rfl | rfl) | rfl <;> simp
    · rw [Function.update_of_ne hy]
  · exact Iff.rfl

/-- The homes after `retire` that are not those before. -/
theorem retire_closed {x y : Nat} (hk : retire h x y = .full ∨ retire h x y = .victim) :
    h y = .full ∨ h y = .victim := by
  unfold retire at hk
  split at hk
  · rename_i hf
    by_cases hy : y = x
    · subst hy
      exact Or.inl hf
    · rwa [Function.update_of_ne hy] at hk
  · exact hk

theorem retire_full {x y : Nat} (hk : retire h x y = .full) : h y = .full ∧ y ≠ x := by
  unfold retire at hk
  split at hk
  · by_cases hy : y = x
    · subst hy
      simp at hk
    · exact ⟨by rwa [Function.update_of_ne hy] at hk, hy⟩
  · rename_i hf
    refine ⟨hk, ?_⟩
    rintro rfl
    exact hf hk

def pageInvalidated (s : ConvFtl) (c l x p : Nat) (lm : LineMgmt) : ConvFtl :=
  { s.setBlk (pageAt c l x p) (invalidatedBlock (blockAt s c l x) p) with lm := lm }

theorem pageInvalidated_put (s : ConvFtl) (c l x p : Nat) (lm : LineMgmt) :
    BlockPut s (pageInvalidated s c l x p lm) c l x (invalidatedBlock (blockAt s c l x) p) :=
  blockPut_setBlk s c l x p _

theorem pageInvalidated_restatus (s : ConvFtl) (c l x p : Nat) (lm : LineMgmt) :
    Restatus s (pageInvalidated s c l x p lm) c l x p .invalid :=
  (pageInvalidated_put s c l x p lm).restatus rfl

theorem Inv.invalidate (i : Inv spp s h fill) {c l x p : Nat} (hr : InRange spp c l x p)
    (hv : statusAt s c l x p = .valid) (hheld : h x ≠ .held) {lm' : LineMgmt}
    (hch : LineCharged s.lm lm' x) (a : Shelved spp lm' (retire h x)) :
    Inv spp (pageInvalidated s c l x p lm') (retire h x) fill := by
  have hput := pageInvalidated_put s c l x p lm'
  have hst := pageInvalidated_restatus s c l x p lm'
  refine ⟨fun hd => ⟨(i.perf hd).ch, (i.perf hd).pcie⟩, i.wp, ?_, a, ?_, ?_, ?_, ?_, ?_, ?_, ?_⟩
  · intro io y
    rw [retire_open (Or.inl io.home_open)]
    exact i.cur io y
  · intro c' hc' l' hl' y hy
    rw [hput c' l' y]
    split
    · rename_i hk
      obtain ⟨rfl, rfl, rfl⟩ := hk
      have hb := (i.shape c' hc' l' hl' y hy).setStatus p .invalid
      exact ⟨hb.npgs, hb.nsecs⟩
    · exact i.shape c' hc' l' hl' y hy
  · intro y hy hky
    have hky' : h y ≠ .held := fun he => hky ((retire_held h x y).mpr he)
    by_cases hyx : y = x
    · subst hyx
      have hcont := i.contents y hy hheld
      have hb := hcont.census c hr.ch l hr.lun
      have hone := (hcont.counted hr hv).1
      refine hcont.put hr.ch hr.lun hput (hb.invalidate hr.pg hv) ?_ ?_ ?_
      · have hvpc : (lm'.lines y).vpc + 1 = (s.lm.lines y).vpc := hch.vpc
        change (lm'.lines y).vpc + (blockAt s c l y).vpc = (s.lm.lines y).vpc + ((blockAt s c l y).vpc - 1)
        omega
      · have hipc : (lm'.lines y).ipc = (s.lm.lines y).ipc + 1 := hch.ipc
        change (lm'.lines y).ipc + (blockAt s c l y).ipc = (s.lm.lines y).ipc + ((blockAt s c l y).ipc + 1)
        omega
      · intro c' hc' l' hl' q hq
        rw [hst c' l' y q, ← hcont.free_iff c' hc' l' hl' q hq]
        split
        · rename_i hk
          obtain ⟨rfl, rfl, -, rfl⟩ := hk
          simp [hv]
        · exact Iff.rfl
    · obtain ⟨hvo, hio⟩ := hch.other y hyx
      refine (i.contents y hy hky').congr ?_ hvo hio
      intro c' _ l' _
      exact hput.other (fun hk => hyx hk.2.2)
  · intro y hy hky
    exact i.fill_free y hy ((retire_open (Or.inr rfl)).mp hky)
  · intro y hy hky
    exact i.fill_closed y hy (retire_closed hky)
  · intro y hy hky
    obtain ⟨hf, hyx⟩ := retire_full hky
    exact (hch.other y hyx).1.trans (i.full_vpc y hy hf)
  · intro y hy hky
    by_cases hyx : y = x
    · subst hyx
      change 0 < (lm'.lines y).ipc
      rw [hch.ipc]
      exact Nat.succ_pos _
    · change 0 < (lm'.lines y).ipc
      rw [(hch.other y hyx).2]
      apply i.victim_ipc y hy
      unfold retire at hky
      split at hky
      · rwa [Function.update_of_ne hyx] at hky
      · exact hky
  · intro y hy hky
    rcases hky with hk | hk | hk
    · exact i.fits y hy (Or.inl (retire_full hk).1)
    · rcases retire_closed (Or.inr hk) with hk' | hk'
      · exact i.fits y hy (Or.inl hk')
      · exact i.fits y hy (Or.inr (Or.inl hk'))
    · exact i.fits y hy (Or.inr (Or.inr ((retire_held h x y).mp hk)))

/-- Every valid page outside the line that is being collected can be invalidated. -/
theorem markPageInvalid_ok (i : Inv spp s h fill) (g : Geometry spp)
    (hs : ∀ io, Settled spp s fill io) {c l x p : Nat} (hr : InRange spp c l x p)
    (hv : statusAt s c l x p = .valid) (hheld : h x ≠ .held) :
    ∃ lm', markPageInvalid spp s (pageAt c l x p) = .ok (pageInvalidated s c l x p lm') ∧
      LineCharged s.lm lm' x ∧ Inv spp (pageInvalidated s c l x p lm') (retire h x) fill := by
  have hcont := i.contents x hr.blk hheld
  obtain ⟨hbv, hlv⟩ := hcont.counted hr hv
  have hbt := (hcont.census c hr.ch l hr.lun).total
  have hlt := hcont.le_line g
  have hiff := i.vpc_eq_line_iff g hs hr.blk hheld
  have hline : ∃ lm', invalidateLine spp s.lm x = .ok lm' ∧ LineCharged s.lm lm' x ∧
      Shelved spp lm' (retire h x) := by
    have hne : h x ≠ .full → (s.lm.lines x).vpc < spp.pgsPerLine := by
      intro hf
      have hvn : (s.lm.lines x).vpc ≠ spp.pgsPerLine := fun he => hf (hiff.mp he)
      omega
    cases hk : h x with
    | free =>
      have hz := i.fill_free x hr.blk hk
      have hfree := (hcont.free_iff c hr.ch l hr.lun p hr.pg).mpr (by omega)
      rw [hv] at hfree
      exact nomatch hfree
    | full =>
      have hfull := i.full_vpc x hr.blk hk
      exact invalidateLine_full i.shelved hr.blk hk (line_pos g) (by omega) hfull
    | victim =>
      have hlt' := hne (by simp [hk])
      exact invalidateLine_victim i.shelved hr.blk hk (by omega) hlv hlt'
    | user => exact invalidateLine_open i.shelved hr.blk (Or.inl hk) (by omega) hlv (hne (by simp [hk]))
    | gc => exact invalidateLine_open i.shelved hr.blk (Or.inr hk) (by omega) hlv (hne (by simp [hk]))
    | held => exact absurd hk hheld
  obtain ⟨lm', hlm, hch, hat⟩ := hline
  refine ⟨lm', ?_, hch, i.invalidate hr hv hheld hch hat⟩
  have hst : ((blockAt s c l x).pg p).status = .valid := hv
  have hblk : ¬ spp.blksPerPl ≤ (pageAt c l x p).blk := Nat.not_le.mpr hr.blk
  unfold markPageInvalid
  rw [getPg_pageAt g hr, ok_bind, nvmevAssert_true hst, ok_bind]
  dsimp only
  rw [nvmevAssert_true, ok_bind, nvmevAssert_true, ok_bind, if_neg hblk]
  · change (invalidateLine spp s.lm x >>= _) = _
    rw [hlm, ok_bind]
    rfl
  · change 0 < (blockAt s c l x).vpc ∧ (blockAt s c l x).vpc ≤ spp.pgsPerBlk
    omega
  · change (blockAt s c l x).ipc < spp.pgsPerBlk
    omega

end NVMeVirt
