import NVMeVirt.ConvConsistency
import NVMeVirt.ConvSteps
import Mathlib.Tactic.IntervalCases

/-!
# The geometry of a 970 PRO

Whatever capacity up to 128 TiB the drive is given and however its channels are parted, the counts that
`ssd_init_params` derives agree with each other, every page has an address, and the pages of the
partitions hold the blocks that the namespace advertises.
-/

namespace NVMeVirt
set_option autoImplicit false
open Outcome

variable {clk : Nat → Nat} {spp : SsdParams} {s s' s₀ : ConvFtl} {log : List NandEvent} {cfg : ConvConfig}
  {mem : Nat → Leftover} {size n : Nat} {host : ConvNs → NvmevRequest → Prop} {ns : ConvNs}
  {ops : List InternalOp}

/-- The build for `n` partitions. -/
def proParts (n : Nat) : ConvConfig := { convSamsung970Pro with ssdPartitions := n }

/-- The counts of a partition with `capacity` bytes, and the bytes of a block as an `int`. -/
structure Coherent (capacity : Nat) (spp : SsdParams) : Prop where
  blk_oneshot : spp.pgsPerBlk = spp.oneshotpgsPerBlk * spp.pgsPerOneshotpg
  blk_flash : spp.pgsPerBlk = spp.flashpgsPerBlk * spp.pgsPerFlashpg
  tt_lines : spp.ttPgs = spp.ttLines * spp.pgsPerLine
  tt_dies : spp.ttPgs = spp.nchs * spp.lunsPerCh * spp.blksPerPl * spp.pgsPerBlk
  capacity_le : capacity ≤ spp.ttPgs * spp.pgsz
  blk_bytes : spp.pgsPerBlk * spp.pgsz < 2^31

/-- The address of the page under a write pointer before it goes into bit fields. -/
def wpPage (wp : WritePointer) : Ppa := ⟨wp.pg, wp.blk, wp.pl, wp.lun, wp.ch, 0⟩

/-- `get_new_page` hands out the page under the write pointer, now and while a command is served. -/
def HandsOutWhole (clk : Nat → Nat) (spp : SsdParams) (ns : ConvNs) : Prop :=
  ∀ i < ns.nrParts, ∀ log s io a, FtlRun clk spp (ns.load i) log s → getNewPage s io = .ok a →
    a = wpPage (getWp s io)

/-- A command inside the advertised size passes the range checks. A write is refused at most for want
of buffer space. -/
structure Admits (clk : Nat → Nat) (spp : SsdParams) (ns : ConvNs) : Prop where
  check : ∀ cmd : NvmeCommand, cmd.slba + nrLba cmd ≤ ns.size / lbaSize →
    endLpn spp cmd / ns.nrParts < spp.ttPgs
  read : ∀ req : NvmevRequest, req.cmd.slba + nrLba req.cmd ≤ ns.size / lbaSize →
    convRead clk spp ns req ≠ .ok none
  write : ∀ req : NvmevRequest, req.cmd.slba + nrLba req.cmd ≤ ns.size / lbaSize →
    convWrite clk spp ns req = .ok none →
      (bufferAllocate ns.writeBuffer (lbaToByte (nrLba req.cmd))).2 < lbaToByte (nrLba req.cmd)

theorem proParts_cases (hn : n ∣ samsung970Pro.nandChannels) : n = 1 ∨ n = 2 ∨ n = 4 ∨ n = 8 := by
  have hle : n ≤ 8 := Nat.le_of_dvd (by decide) hn
  obtain ⟨k, hk⟩ := hn
  change 8 = n * k at hk
  interval_cases n <;> omega

/-- The size of a block: `blks_per_pl` is 8192 on each of the 64 dies. -/
def proBlkBytes (size n : Nat) : Nat := divRoundUp (size / n) (8192 * (64 / n))

/-- Rounding up loses nothing and stays within 2^28 bytes for each block. -/
theorem proBlkBytes_bounds (hsize : size ≤ 2^47) (hn : n ∣ samsung970Pro.nandChannels) :
    proBlkBytes size n ≤ 2^28 ∧ size / n ≤ 8192 * (64 / n) * proBlkBytes size n := by
  unfold proBlkBytes divRoundUp u64
  rcases proParts_cases hn with rfl | rfl | rfl | rfl
  · omega
  · omega
  · omega
  · omega

theorem pro_blks (hn : n ∣ samsung970Pro.nandChannels) :
    blksAndSize samsung970Pro (size / n) (samsung970Pro.plnsPerLun * samsung970Pro.lunsPerNandCh *
      (samsung970Pro.nandChannels / n)) = .ok (8192, proBlkBytes size n) := by
  unfold blksAndSize proBlkBytes
  rw [if_pos (show 0 < samsung970Pro.blksPerPln by decide)]
  rcases proParts_cases hn with rfl | rfl | rfl | rfl
  · rfl
  · rfl
  · rfl
  · rfl

theorem pro_returns (hsize : size ≤ 2^47) (hn : n ∣ samsung970Pro.nandChannels) :
    ∃ spp, ssdInitParams samsung970Pro size n = .ok spp := by
  obtain ⟨hle, _⟩ := proBlkBytes_bounds hsize hn
  have hone : divRoundUp (proBlkBytes size n) samsung970Pro.oneshotPageSize ≤ 8192 := by
    change divRoundUp (proBlkBytes size n) 32768 ≤ 8192
    unfold divRoundUp u64
    omega
  have hpos : 0 < n := Nat.pos_of_dvd_of_pos hn (by decide)
  have hluns : samsung970Pro.nandChannels / n ≤ 8 := Nat.div_le_self _ _
  unfold ssdInitParams
  rw [divisor_eq hpos, ok_bind, nvmevAssert_true (Nat.mod_eq_zero_of_dvd hn), ok_bind]
  dsimp only
  rw [pro_blks hn, ok_bind]
  dsimp only
  rw [nvmevAssert_true (by decide), ok_bind, divisor_eq (by decide), ok_bind, nvmevAssert_true (by decide),
    ok_bind, divisor_eq (by decide), ok_bind]
  generalize divRoundUp (proBlkBytes size n) samsung970Pro.oneshotPageSize = oneshotpgs at hone
  have hratio : samsung970Pro.oneshotPageSize / samsung970Pro.flashPageSize = 1 := by decide
  have hpack : samsung970Pro.oneshotPageSize / (lbaSize * (4096 / lbaSize)) = 8 := by decide
  have hdies : samsung970Pro.lunsPerNandCh * (samsung970Pro.nandChannels / n) < 2^31 := by
    change 8 * (samsung970Pro.nandChannels / n) < 2^31
    omega
  rw [hratio, hpack, asInt_eq (by omega), ok_bind, asInt_eq (by omega), ok_bind, asInt_eq (by omega), ok_bind,
    asInt_eq (by omega), ok_bind, asInt_eq (by decide), ok_bind, asInt_eq hdies, ok_bind]
  exact ⟨_, rfl⟩

theorem dies_eq (hn : n ∣ samsung970Pro.nandChannels) : 8 * (8 / n) = 64 / n := by
  rcases proParts_cases hn with rfl | rfl | rfl | rfl <;> rfl

theorem pro_blk (hn : n ∣ samsung970Pro.nandChannels) (d : Derived (proParts n) size n spp) :
    spp.pgsPerBlk = 8 * divRoundUp (proBlkBytes size n) 32768 := by
  have hone : spp.pgsPerOneshotpg * 4096 = 32768 := d.oneshot
  have hpgs : spp.oneshotpgsPerBlk =
      divRoundUp (divRoundUp (size / n) (8192 * (8 * (8 / n)))) 32768 := by
    rw [d.oneshotpgs]
    change divRoundUp (divRoundUp (size / n) (8192 * (1 * 8 * (8 / n)))) 32768 = _
    rw [Nat.one_mul]
  rw [d.blk_oneshot, hpgs, dies_eq hn, show spp.pgsPerOneshotpg = 8 by omega]
  rfl

/-- The pages of a block hold its bytes, and there are at most as many as `pg` can tell apart. -/
theorem pro_blk_bounds (hsize : size ≤ 2^47) (hn : n ∣ samsung970Pro.nandChannels)
    (d : Derived (proParts n) size n spp) :
    spp.pgsPerBlk ≤ 2^pageBits ∧ proBlkBytes size n ≤ 4096 * spp.pgsPerBlk := by
  obtain ⟨hle, _⟩ := proBlkBytes_bounds hsize hn
  rw [pro_blk hn d]
  unfold divRoundUp u64 pageBits
  omega

theorem pro_ttPgs (d : Derived cfg size n spp) (hl : spp.blksPerPl = spp.ttLines) :
    spp.ttPgs = spp.nchs * spp.lunsPerCh * spp.blksPerPl * spp.pgsPerBlk ∧
      spp.ttPgs = spp.ttLines * spp.pgsPerLine := by
  obtain ⟨_, hlun, hch, htt, hline, _⟩ := d.counts hl
  have hdies : spp.ttPgs = spp.nchs * spp.lunsPerCh * spp.blksPerPl * spp.pgsPerBlk := by
    rw [htt, hch, hlun, d.pl]
    ring
  refine ⟨hdies, ?_⟩
  rw [hdies, hline, ← hl]
  ring

theorem pro_lines (d : Derived (proParts n) size n spp) : spp.blksPerPl = spp.ttLines := by
  rw [d.lines, d.pls]
  exact (Nat.mul_one _).symm

theorem pro_coherent (hsize : size ≤ 2^47) (hn : n ∣ samsung970Pro.nandChannels)
    (d : Derived (proParts n) size n spp) : Coherent (size / n) spp := by
  obtain ⟨hpgs, hbytes⟩ := pro_blk_bounds hsize hn d
  obtain ⟨_, hcap⟩ := proBlkBytes_bounds hsize hn
  obtain ⟨hdies, hlines⟩ := pro_ttPgs d (pro_lines d)
  have hpages : spp.ttPgs = 8192 * (64 / n) * spp.pgsPerBlk := by
    have hnchs : spp.nchs = 8 / n := d.nchs
    have hluns : spp.lunsPerCh = 8 := d.luns
    have hblks : spp.blksPerPl = 8192 := d.blks
    rw [hdies, hnchs, hluns, hblks, ← dies_eq hn]
    ring
  constructor
  · rw [d.blk_oneshot, Nat.mul_comm]
  · rw [d.blk_flash, Nat.mul_comm]
  · exact hlines
  · exact hdies
  · calc size / n ≤ 8192 * (64 / n) * proBlkBytes size n := hcap
      _ ≤ 8192 * (64 / n) * (4096 * spp.pgsPerBlk) := Nat.mul_le_mul_left _ hbytes
      _ = spp.ttPgs * spp.pgsz := by
        rw [hpages, d.pgsz]
        ring
  · rw [d.pgsz]
    unfold pageBits at hpgs
    omega

structure WpFits (wp : WritePointer) : Prop extends PlaceFits wp where
  blk : wp.blk < 2^blkBits
  pl : wp.pl < 2^plBits

theorem getNewPage_whole {io : IoType} {a : Ppa} (w : WpFits (getWp s io)) (h : getNewPage s io = .ok a) :
    a = wpPage (getWp s io) := by
  unfold getNewPage at h
  obtain ⟨_, h⟩ := nvmevAssert_bind_ok.mp h
  cases h
  unfold wpPage
  rw [Nat.mod_eq_of_lt w.ch, Nat.mod_eq_of_lt w.lun, Nat.mod_eq_of_lt w.pg, Nat.mod_eq_of_lt w.blk,
    Nat.mod_eq_of_lt w.pl]

theorem Sound.wpFits {held : Option Nat} (hs : Sound spp s held) (hfits : Fits spp)
    (hblks : spp.blksPerPl ≤ 2^blkBits) (io : IoType) : WpFits (getWp s io) := by
  obtain ⟨h, fill, i, hset, hheld⟩ := hs
  have w := i.wp io
  refine ⟨Sound.placeFits ⟨h, fill, i, hset, hheld⟩ hfits io, ?_, ?_⟩
  · rw [w.blk]
    exact (i.cur_lt io).1.trans_le hblks
  · rw [w.pl]
    decide

/-- Only the allocation of a page moves a write pointer. -/
theorem FtlStep.getWp (h : FtlStep spp s s') :
    (∀ io, getWp s' io = getWp s io) ∨
      ∃ io lpn a held, Sound spp s held ∧ writeNewPage spp s io lpn = .ok (s', a) := by
  cases h with
  | link => exact Or.inl fun io => by cases io <;> rfl
  | drop _ _ hdrop =>
    refine Or.inl ?_
    rcases dropOldPage_steps hdrop with rfl | ⟨_, _, _, _, _, rfl⟩
    · exact fun _ => rfl
    · exact fun io => by cases io <;> rfl
  | write hs hok => exact Or.inr ⟨_, _, _, _, hs, hok⟩
  | select _ hsel =>
    unfold selectVictimLine at hsel
    split at hsel
    · cases hsel
    split at hsel
    · cases hsel
    split at hsel
    · cases hsel
    cases hsel
    exact Or.inl fun io => by cases io <;> rfl
  | recount => exact Or.inl fun io => by cases io <;> rfl
  | erase => exact Or.inl fun io => by cases io <;> rfl
  | endtime => exact Or.inl fun io => by cases io <;> rfl
  | free => exact Or.inl fun io => by cases io <;> rfl

/-- A run of steps from pointers that can be stored: so can all that follow. -/
theorem FtlRun.wpFits (run : FtlRun clk spp s₀ log s) (hgeom : 0 < spp.pgsPerBlk → Geometry spp)
    (hfits : Fits spp) (hblks : spp.blksPerPl ≤ 2^blkBits) (start : ∀ io, WpFits (getWp s₀ io)) (io : IoType) :
    WpFits (getWp s io) := by
  have hall : ∀ io, WpFits (getWp s io) := by
    apply run.keeps (P := fun s => ∀ io, WpFits (getWp s io)) start
    · intro s _ _ _ ih _ _ io
      cases io
      · exact ih .user
      · exact ih .gc
    · intro s s' ih hstep
      rcases hstep.getWp with hsame | ⟨io', lpn, a, held, hs, hok⟩
      · intro io
        rw [hsame io]
        exact ih io
      · obtain ⟨h, fill, i, hset⟩ := hs
        have g := hgeom (Nat.zero_lt_of_lt (i.wp .user).pg)
        have hs' := ((writeNewPage_sat g ⟨h, fill, i, hset⟩ io' lpn).of_ok hok).1
        exact hs'.wpFits hfits hblks
  exact hall io

theorem freshFtl_wpFits (spp : SsdParams) (mem : Leftover) (ssd : Ssd) (io : IoType) :
    WpFits (getWp (freshFtl spp mem ssd) io) := by
  have hline : ∀ x < 2^blkBits, WpFits ⟨x, 0, 0, 0, x, 0⟩ :=
    fun x hx => ⟨⟨Nat.two_pow_pos _, Nat.two_pow_pos _, Nat.two_pow_pos _⟩, hx, Nat.two_pow_pos _⟩
  cases io
  · exact hline 0 (by decide)
  · exact hline 1 (by decide)

theorem Reachable.wpFits (hr : Reachable clk cfg mem size host spp ns ops) (hfits : Fits spp)
    (hblks : spp.blksPerPl ≤ 2^blkBits) {i : Nat} (hi : i < ns.nrParts) (io : IoType) :
    WpFits (getWp (ns.load i) io) := by
  rcases Nat.eq_zero_or_pos spp.ttPgs with hz | hpos
  · obtain ⟨_, _, _, hall⟩ := hr.frozen hz
    obtain ⟨ssd, hslept, _⟩ := hall i hi
    have hfresh := freshFtl_wpFits spp (mem i) (ssdInit spp) io
    rw [hslept]
    cases io <;> exact hfresh
  · exact ((hr.nsOk hpos).1.sound i hi).wpFits hfits hblks io

theorem Reachable.shell (hr : Reachable clk cfg mem size host spp ns ops) :
    ns.nrParts = cfg.ssdPartitions ∧ ns.size = convNsSize (convInitParams cfg.toSsdConfig) size := by
  rcases Nat.eq_zero_or_pos spp.ttPgs with hz | hpos
  · refine ⟨(hr.frozen hz).1, ?_⟩
    induction hr with
    | init h => exact (convInitNamespace_ok h).nsSize
    | command hr _ h ih =>
      obtain ⟨_, hn, _, hall⟩ := hr.frozen hz
      obtain ⟨ssd, hslept, _⟩ := hall 0 hn
      obtain ⟨hid, _⟩ := convProcNvmeIoCmd_no_pages hz hn (by rw [hslept]; rfl) h
      exact hid.shell.size.trans ih
    | release _ _ ih => exact ih
  · exact (hr.nsOk hpos).2

/-- The last page of a command inside the advertised size is one of its partition. -/
theorem pro_endLpn (hsize : size ≤ 2^47) (hn : n ∣ samsung970Pro.nandChannels) (c : Coherent (size / n) spp)
    (hpgsz : spp.pgsz = 4096) (hsecs : spp.secsPerPg = 8) {cmd : NvmeCommand}
    (h : cmd.slba + nrLba cmd ≤ convNsSize (convInitParams (proParts n).toSsdConfig) size / lbaSize) :
    endLpn spp cmd / n < spp.ttPgs := by
  have hcap := c.capacity_le
  rw [hpgsz] at hcap
  unfold convNsSize convInitParams at h
  change cmd.slba + (cmd.length + 1) ≤ u64 (size * 100) / 107 / 512 at h
  rw [u64_eq (show size * 100 < 2^64 by omega)] at h
  unfold endLpn nrLba
  rw [hsecs]
  have hlast : u64 (cmd.slba + (cmd.length + 1) - 1) = cmd.slba + cmd.length := u64_eq (by omega)
  rw [hlast]
  rcases proParts_cases hn with rfl | rfl | rfl | rfl
  · omega
  · omega
  · omega
  · omega

theorem admits_of_check (hn : 0 < ns.nrParts)
    (check : ∀ cmd : NvmeCommand, cmd.slba + nrLba cmd ≤ ns.size / lbaSize →
      endLpn spp cmd / ns.nrParts < spp.ttPgs) : Admits clk spp ns := by
  refine ⟨check, ?_, ?_⟩
  · intro req hreq hnone
    unfold convRead at hnone
    dsimp only at hnone
    rw [if_neg hn.ne', if_neg (Nat.not_le.mpr (check req.cmd hreq))] at hnone
    obtain ⟨_, _, hnone⟩ := bind_eq_ok.mp hnone
    cases hnone
  · intro req hreq hnone
    unfold convWrite at hnone
    dsimp only at hnone
    rw [if_neg hn.ne', if_neg (Nat.not_le.mpr (check req.cmd hreq))] at hnone
    by_contra hroom
    rw [if_neg hroom] at hnone
    obtain ⟨_, _, hnone⟩ := bind_eq_ok.mp hnone
    obtain ⟨_, _, hnone⟩ := bind_eq_ok.mp hnone
    cases hnone

/-- On a 970 PRO of up to 128 TiB, parted by any divisor of its channels, the derived counts agree, every
page that is handed out has its own address, and the drive takes every command inside its size. -/
theorem pro_geometry_holds (size n : Nat) (hsize : size ≤ 2^47) (hn : n ∣ samsung970Pro.nandChannels) :
    ∃ spp, ssdInitParams (proParts n).toSsdConfig size n = .ok spp ∧ Coherent (size / n) spp ∧
      (∀ mem, ∃ ns, convInitNamespace (proParts n).toSsdConfig mem size = .ok (spp, ns)) ∧
      ∀ clk mem host ns ops, Reachable clk (proParts n) mem size host spp ns ops →
        HandsOutWhole clk spp ns ∧ Admits clk spp ns := by
  obtain ⟨spp, hspp⟩ := pro_returns hsize hn
  have d : Derived (proParts n) size n spp := ssdInitParams_ok hspp
  have hl := pro_lines d
  have c := pro_coherent hsize hn d
  have hparts : n ≤ 8 := Nat.le_of_dvd (by decide) hn
  have hnchs : spp.nchs = 8 / n := d.nchs
  have hluns : spp.lunsPerCh = 8 := d.luns
  have hblks : spp.blksPerPl = 8192 := d.blks
  have hfits : Fits spp := by
    refine ⟨?_, ?_, (pro_blk_bounds hsize hn d).1⟩
    · rw [hnchs]
      exact (Nat.div_le_self 8 n).trans (by decide)
    · rw [hluns]
      decide
  have hblk : spp.blksPerPl ≤ 2^blkBits := by
    rw [hblks]
    decide
  have hgeom : 0 < spp.pgsPerBlk → Geometry spp := by
    intro hpg
    apply d.geometry hl
    rw [c.tt_dies]
    apply Nat.mul_pos _ hpg
    rw [hblks]
    obtain ⟨hch, hlun⟩ := d.luns_pos
    positivity
  refine ⟨spp, hspp, c, fun mem => ⟨_, convInitNamespace_eq hspp hl (by omega) mem⟩, ?_⟩
  intro clk mem host ns ops hr
  obtain ⟨hnr, hns⟩ := hr.shell
  constructor
  · intro i hi log s io a hrun hnew
    have w := hrun.wpFits hgeom hfits hblk (fun io => hr.wpFits hfits hblk hi io) io
    exact getNewPage_whole w hnew
  · apply admits_of_check
    · rw [hnr]
      exact d.parts_pos
    · intro cmd hcmd
      rw [hns] at hcmd
      rw [hnr]
      exact pro_endLpn hsize hn c d.pgsz d.secsPerPg hcmd

/-- 128 TiB in eight partitions of one channel. -/
theorem pro_geometry_holds_128TiB : ∃ spp, ssdInitParams (proParts 8).toSsdConfig (2^47) 8 = .ok spp ∧
    Coherent (2^44) spp ∧ ∃ ns, convInitNamespace (proParts 8).toSsdConfig (fun _ => zeroLeftover) (2^47) =
      .ok (spp, ns) ∧ HandsOutWhole (fun t => t) spp ns ∧ Admits (fun t => t) spp ns := by
  obtain ⟨spp, hspp, c, hinit, hall⟩ := pro_geometry_holds (2^47) 8 (by decide) (by decide)
  obtain ⟨ns, hns⟩ := hinit (fun _ => zeroLeftover)
  exact ⟨spp, hspp, c, ns, hns, hall _ _ (fun _ _ => True) _ _ (.init hns)⟩

end NVMeVirt
