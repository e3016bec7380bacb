import NVMeVirt.Lib.Census
import NVMeVirt.ConvGeometry

/-!
# What a partition keeps

The abstract state of a partition gives every line a home (one of the three containers, one
of the two write pointers, or the collector) and a fill level, the number of its pages that
have been allocated since it was erased. `Inv s h fill` ties the concrete lists, the victim
queue, the page states and the three levels of counters to `h` and `fill`.
-/

namespace NVMeVirt
set_option autoImplicit false
open Outcome Census PQueue

inductive Home where
  | free
  | full
  | victim
  | user
  | gc
  | held
  deriving Repr, DecidableEq

def IoType.home : IoType → Home
  | .user => .user
  | .gc => .gc

theorem IoType.home_inj {a b : IoType} (h : a.home = b.home) : a = b := by
  cases a <;> cases b <;> first | rfl | cases h

def Home.Open (k : Home) : Prop := k = .user ∨ k = .gc

theorem IoType.home_open (io : IoType) : io.home.Open := by
  cases io
  · exact Or.inl rfl
  · exact Or.inr rfl

def hasStatus (b : NandBlock) (st : PgStatus) (p : Nat) : Bool := (b.pg p).status == st

/-- The constants that `ssd_init_nand_blk` sets and nothing changes. -/
structure BlockShape (spp : SsdParams) (b : NandBlock) : Prop where
  npgs : b.npgs = spp.pgsPerBlk
  nsecs : ∀ p < spp.pgsPerBlk, (b.pg p).nsecs = spp.secsPerPg

structure BlockCensus (spp : SsdParams) (b : NandBlock) : Prop where
  vpc : b.vpc = tally spp.pgsPerBlk (hasStatus b .valid)
  ipc : b.ipc = tally spp.pgsPerBlk (hasStatus b .invalid)

structure WpOk (spp : SsdParams) (wp : WritePointer) : Prop where
  ch : wp.ch < spp.nchs
  lun : wp.lun < spp.lunsPerCh
  pg : wp.pg < spp.pgsPerBlk
  pl : wp.pl = 0
  blk : wp.blk = wp.curline

def wpIndex (spp : SsdParams) (wp : WritePointer) : Nat := allocIndex spp wp.ch wp.lun wp.pg

def blockAt (s : ConvFtl) (c l x : Nat) : NandBlock := s.ssd.blk ⟨c, l, 0, x⟩

def statusAt (s : ConvFtl) (c l x p : Nat) : PgStatus := ((blockAt s c l x).pg p).status

/-- Which line is where: the two lists and the queue against `h`. -/
structure Shelved (spp : SsdParams) (lm : LineMgmt) (h : Nat → Home) : Prop where
  free_mem : ∀ x, x ∈ lm.freeLineList ↔ x < spp.blksPerPl ∧ h x = .free
  full_mem : ∀ x, x ∈ lm.fullLineList ↔ x < spp.blksPerPl ∧ h x = .full
  free_nodup : lm.freeLineList.Nodup
  full_nodup : lm.fullLineList.Nodup
  free_cnt : lm.freeLineCnt = lm.freeLineList.length
  full_cnt : lm.fullLineCnt = lm.fullLineList.length
  victim_cnt : lm.victimLineCnt + 1 = lm.victimLinePq.size
  pq : Holds victimLineOps lm.victimLinePq lm.lines (fun x => x < spp.blksPerPl ∧ h x = .victim)
  pq_avail : lm.victimLinePq.avail = spp.blksPerPl + 1
  pos_zero : ∀ x < spp.blksPerPl, h x ≠ .victim → (lm.lines x).pos = 0
  line_id : ∀ x < spp.blksPerPl, (lm.lines x).id = x

/-- What line `x` holds when `n` of its pages have been allocated. -/
structure LineContents (spp : SsdParams) (s : ConvFtl) (x n : Nat) : Prop where
  census : ∀ c < spp.nchs, ∀ l < spp.lunsPerCh, BlockCensus spp (blockAt s c l x)
  vpc : (s.lm.lines x).vpc = grid spp.nchs spp.lunsPerCh (fun c l => (blockAt s c l x).vpc)
  ipc : (s.lm.lines x).ipc = grid spp.nchs spp.lunsPerCh (fun c l => (blockAt s c l x).ipc)
  free_iff : ∀ c < spp.nchs, ∀ l < spp.lunsPerCh, ∀ p < spp.pgsPerBlk,
    (statusAt s c l x p = .free ↔ n ≤ allocIndex spp c l p)

structure Inv (spp : SsdParams) (s : ConvFtl) (h : Nat → Home) (fill : Nat → Nat) : Prop where
  perf : Rated spp → s.ssd.PerfOk
  wp : ∀ io, WpOk spp (getWp s io)
  cur : ∀ io x, (getWp s io).curline = x ↔ x < spp.blksPerPl ∧ h x = io.home
  shelved : Shelved spp s.lm h
  shape : ∀ c < spp.nchs, ∀ l < spp.lunsPerCh, ∀ x < spp.blksPerPl, BlockShape spp (blockAt s c l x)
  contents : ∀ x < spp.blksPerPl, h x ≠ .held → LineContents spp s x (fill x)
  fill_free : ∀ x < spp.blksPerPl, h x = .free → fill x = 0
  fill_closed : ∀ x < spp.blksPerPl, h x = .full ∨ h x = .victim → fill x = spp.pgsPerLine
  full_vpc : ∀ x < spp.blksPerPl, h x = .full → (s.lm.lines x).vpc = spp.pgsPerLine
  victim_ipc : ∀ x < spp.blksPerPl, h x = .victim → 0 < (s.lm.lines x).ipc
  fits : ∀ x < spp.blksPerPl, h x = .full ∨ h x = .victim ∨ h x = .held → Fits spp

/-- The fill level of an open line is where its write pointer stands. -/
def Settled (spp : SsdParams) (s : ConvFtl) (fill : Nat → Nat) (io : IoType) : Prop :=
  fill (getWp s io).curline = wpIndex spp (getWp s io)

variable {spp : SsdParams} {s : ConvFtl}

theorem hasStatus_true {c l x p : Nat} {st : PgStatus} :
    hasStatus (blockAt s c l x) st p = true ↔ statusAt s c l x p = st := beq_iff_eq

theorem hasStatus_false {c l x p : Nat} {st : PgStatus} :
    hasStatus (blockAt s c l x) st p = false ↔ statusAt s c l x p ≠ st := beq_eq_false_iff_ne

theorem BlockCensus.total {b : NandBlock} (h : BlockCensus spp b) :
    b.vpc + b.ipc + tally spp.pgsPerBlk (hasStatus b .free) = spp.pgsPerBlk := by
  rw [h.vpc, h.ipc]
  apply tally_three
  intro p _
  unfold hasStatus
  cases (b.pg p).status <;> rfl

theorem LineContents.total {x n : Nat} (h : LineContents spp s x n) (g : Geometry spp) :
    (s.lm.lines x).vpc + (s.lm.lines x).ipc +
      grid spp.nchs spp.lunsPerCh (fun c l => tally spp.pgsPerBlk (hasStatus (blockAt s c l x) .free)) =
      spp.pgsPerLine := by
  rw [h.vpc, h.ipc, ← grid_add, ← grid_add, g.line_eq, ← grid_const]
  apply grid_congr
  intro c hc l hl
  exact (h.census c hc l hl).total

theorem LineContents.le_line {x n : Nat} (h : LineContents spp s x n) (g : Geometry spp) :
    (s.lm.lines x).vpc + (s.lm.lines x).ipc ≤ spp.pgsPerLine := by
  have ht := h.total g
  omega

/-- A line that is allocated to the end has only valid and invalid pages. -/
theorem LineContents.closed {x : Nat} (h : LineContents spp s x spp.pgsPerLine) (g : Geometry spp) :
    (s.lm.lines x).vpc + (s.lm.lines x).ipc = spp.pgsPerLine := by
  have ht := h.total g
  have hz : grid spp.nchs spp.lunsPerCh
      (fun c l => tally spp.pgsPerBlk (hasStatus (blockAt s c l x) .free)) = 0 := by
    rw [grid_congr (g := fun _ _ => 0), grid_const, Nat.mul_zero]
    intro c hc l hl
    apply tally_eq_zero.mpr
    intro p hp
    have hlt := allocIndex_lt g.wordlines hc hl hp
    have hne : statusAt s c l x p ≠ .free := fun hf =>
      absurd ((h.free_iff c hc l hl p hp).mp hf) (Nat.not_le.mpr hlt)
    exact hasStatus_false.mpr hne
  omega

theorem LineContents.room {x n c l p : Nat} (h : LineContents spp s x n) (g : Geometry spp)
    (hr : InRange spp c l x p) (hf : statusAt s c l x p = .free) :
    (blockAt s c l x).vpc < spp.pgsPerBlk ∧ (s.lm.lines x).vpc < spp.pgsPerLine := by
  have hb := (h.census c hr.ch l hr.lun).total
  have hone : 0 < tally spp.pgsPerBlk (hasStatus (blockAt s c l x) .free) :=
    tally_pos hr.pg (hasStatus_true.mpr hf)
  have ht := h.total g
  have hg : 0 < grid spp.nchs spp.lunsPerCh
      (fun c l => tally spp.pgsPerBlk (hasStatus (blockAt s c l x) .free)) :=
    grid_pos hr.ch hr.lun hone
  omega

theorem LineContents.counted {x n c l p : Nat} (h : LineContents spp s x n)
    (hr : InRange spp c l x p) (hv : statusAt s c l x p = .valid) :
    0 < (blockAt s c l x).vpc ∧ 0 < (s.lm.lines x).vpc := by
  have hone : 0 < (blockAt s c l x).vpc := by
    rw [(h.census c hr.ch l hr.lun).vpc]
    exact tally_pos hr.pg (hasStatus_true.mpr hv)
  refine ⟨hone, ?_⟩
  rw [h.vpc]
  exact grid_pos hr.ch hr.lun hone

theorem WpOk.index_lt {wp : WritePointer} (h : WpOk spp wp) (g : Wordlines spp) :
    wpIndex spp wp < spp.pgsPerLine := allocIndex_lt g h.ch h.lun h.pg

theorem Inv.cur_lt {h : Nat → Home} {fill : Nat → Nat} (i : Inv spp s h fill) (io : IoType) :
    (getWp s io).curline < spp.blksPerPl ∧ h (getWp s io).curline = io.home :=
  (i.cur io _).mp rfl

theorem Inv.open_fill_lt {h : Nat → Home} {fill : Nat → Nat} (i : Inv spp s h fill)
    (g : Geometry spp) {io : IoType} (hs : Settled spp s fill io) {x : Nat}
    (hx : x < spp.blksPerPl) (hk : h x = io.home) : fill x < spp.pgsPerLine := by
  rw [← (i.cur io x).mpr ⟨hx, hk⟩, hs]
  exact (i.wp io).index_lt g.wordlines

/-- A line has every page valid exactly when it is on the full list. -/
theorem Inv.vpc_eq_line_iff {h : Nat → Home} {fill : Nat → Nat} (i : Inv spp s h fill)
    (g : Geometry spp) (hs : ∀ io, Settled spp s fill io) {x : Nat} (hx : x < spp.blksPerPl)
    (hheld : h x ≠ .held) : (s.lm.lines x).vpc = spp.pgsPerLine ↔ h x = .full := by
  constructor
  · intro hv
    have hc := i.contents x hx hheld
    have hopen : ¬ fill x < spp.pgsPerLine := by
      intro hlt
      obtain ⟨c, l, p, hcc, hll, hpp, hlast⟩ := exists_last g
      have hroom := hc.room g ⟨hcc, hll, hx, hpp⟩ ((hc.free_iff c hcc l hll p hpp).mpr (by omega))
      omega
    cases hk : h x with
    | free =>
      rw [i.fill_free x hx hk] at hopen
      exact absurd (line_pos g) hopen
    | full => rfl
    | victim =>
      have hi := i.victim_ipc x hx hk
      have hle := hc.le_line g
      omega
    | user => exact absurd (i.open_fill_lt g (hs .user) hx hk) hopen
    | gc => exact absurd (i.open_fill_lt g (hs .gc) hx hk) hopen
    | held => exact absurd hk hheld
  · exact i.full_vpc x hx

end NVMeVirt
