import NVMeVirt.StaleTable

/-!
# Cell types

`get_cell` counts the flash pages of a block modulo `cell_mode + 1`. The third flash page of a block
is the first one that a cell of two bits has no type for, and a block of the SAMSUNG_970PRO has a third
one from 32 GiB on.
-/

namespace NVMeVirt
set_option autoImplicit false
open Outcome

variable {clk : Nat → Nat} {spp : SsdParams} {mem : Nat → Leftover} {size : Nat} {a : Ppa}

/-- A page that `get_new_page` hands out in some run on `size` bytes. -/
def Allocates (size : Nat) (spp : SsdParams) (a : Ppa) : Prop :=
  ∃ clk mem host ns ops i io, Reachable clk convSamsung970Pro mem size host spp ns ops ∧
    i < ns.nrParts ∧ getNewPage (ns.load i) io = .ok a

/-- A NAND read whose sensing takes `lat`. -/
def readSensing (clk : Nat → Nat) (spp : SsdParams) (ssd : Ssd) (ncmd : NandCmd) (lat : Nat) :
    Except Fault (Ssd × Nat) := do
  let (ssd, cmdStime) :=
    if ncmd.stime = 0 then ({ ssd with ticks := ssd.ticks + 1 }, clk ssd.ticks)
    else (ssd, ncmd.stime)
  let lun := ssd.getLun ncmd.ppa
  let nandEtime := u64 (max lun.nextLunAvailTime cmdStime + lat)
  let (ssd, chnlEtime, completedTime) ← readXfer clk spp ncmd.ppa ncmd.interleavePciDma
    ncmd.xferSize ssd ncmd.xferSize nandEtime nandEtime
  return (ssd.setLun ncmd.ppa { lun with nextLunAvailTime := chnlEtime }, completedTime)

/-- The latencies of the pages of a read: one for a read of 4 KiB, one for any other. -/
def latencies (spp : SsdParams) (xferSize : Nat) : CellLatency :=
  if xferSize = 4096 then spp.pg4kbRdLat else spp.pgRdLat

/-- A read of the page is charged the latency of a type that its cells have: LSB or MSB. -/
structure Sensed (spp : SsdParams) (a : Ppa) : Prop where
  cell : getCell spp a < spp.cellMode
  charged : ∀ clk ssd ncmd, ncmd.cmd = .read → ncmd.ppa = a →
    ssdAdvanceNand clk spp ssd ncmd = readSensing clk spp ssd ncmd (latencies spp ncmd.xferSize).lsb ∨
      ssdAdvanceNand clk spp ssd ncmd = readSensing clk spp ssd ncmd (latencies spp ncmd.xferSize).msb

/-- The size of a block, before it is rounded up to whole one-shot pages. -/
def proBlkSize (size : Nat) : Nat :=
  divRoundUp size (samsung970Pro.blksPerPln *
    (samsung970Pro.plnsPerLun * samsung970Pro.lunsPerNandCh * samsung970Pro.nandChannels))

theorem ssdAdvanceNand_read {ssd : Ssd} {ncmd : NandCmd} (hop : ncmd.cmd = .read)
    (hmapped : ncmd.ppa ≠ unmappedPpa) (hch : ncmd.ppa.ch < spp.nchs) (hlun : ncmd.ppa.lun < spp.lunsPerCh) :
    ssdAdvanceNand clk spp ssd ncmd =
      readSensing clk spp ssd ncmd ((latencies spp ncmd.xferSize).at (getCell spp ncmd.ppa)) := by
  have hlat : (if ncmd.xferSize = 4096 then spp.pg4kbRdLat.at (getCell spp ncmd.ppa)
      else spp.pgRdLat.at (getCell spp ncmd.ppa)) =
        (latencies spp ncmd.xferSize).at (getCell spp ncmd.ppa) := by
    unfold latencies
    split <;> rfl
  unfold ssdAdvanceNand readSensing
  dsimp only
  rw [if_neg hmapped, if_neg (not_not.mpr ⟨hch, hlun⟩), hop]
  dsimp only
  rw [hlat]

/-- Two cell types are enough for two latencies. -/
theorem sensed_of_cell (hmode : spp.cellMode = 2) (hcell : getCell spp a < spp.cellMode)
    (hmapped : a ≠ unmappedPpa) (hch : a.ch < spp.nchs) (hlun : a.lun < spp.lunsPerCh) : Sensed spp a := by
  refine ⟨hcell, ?_⟩
  rintro clk ssd ncmd hop rfl
  rw [ssdAdvanceNand_read hop hmapped hch hlun]
  rw [hmode] at hcell
  rcases Nat.lt_or_ge (getCell spp ncmd.ppa) 1 with hlsb | hmsb
  · left
    rw [Nat.lt_one_iff.mp hlsb]
    rfl
  · right
    rw [show getCell spp ncmd.ppa = 1 by omega]
    rfl

theorem ssdInitParams_cells {cfg : SsdConfig} {n : Nat} (h : ssdInitParams cfg size n = .ok spp) :
    spp.cellMode = cfg.cellMode ∧ spp.pgsPerFlashpg = cfg.flashPageSize / 4096 ∧
      spp.pg4kbRdLat = cfg.nand4kbReadLatency := by
  obtain ⟨_, p⟩ := ssdInitParams_produced h
  have hflash := p.flash_pages
  exact ⟨p.cellMode, by omega, p.latency⟩

structure ProCells (size : Nat) (spp : SsdParams) : Prop where
  derived : Derived convSamsung970Pro size 1 spp
  cellMode : spp.cellMode = 2
  flash : spp.pgsPerFlashpg = 8
  latency : spp.pg4kbRdLat = samsung970Pro.nand4kbReadLatency
  lines : spp.blksPerPl = spp.ttLines
  blk : spp.pgsPerBlk = 8 * divRoundUp (proBlkSize size) (kb 32)

theorem proCells (h : ssdInitParams convSamsung970Pro.toSsdConfig size convSamsung970Pro.ssdPartitions = .ok spp) :
    ProCells size spp := by
  have d : Derived convSamsung970Pro size 1 spp := ssdInitParams_ok h
  obtain ⟨hmode, hflash, hlat⟩ := ssdInitParams_cells h
  have hone := d.oneshot
  have hsz : convSamsung970Pro.oneshotPageSize = 32768 := by decide
  rw [hsz] at hone
  refine ⟨d, hmode, hflash, hlat, ?_, ?_⟩
  · rw [d.lines, d.pls]
    exact (Nat.mul_one _).symm
  · rw [d.blk_oneshot, show spp.pgsPerOneshotpg = 8 by omega, d.oneshotpgs, Nat.div_one]
    rfl

theorem ProCells.small_iff (k : ProCells size spp) : proBlkSize size ≤ 2 * kb 32 ↔ spp.pgsPerBlk ≤ 16 := by
  have hlt := k.derived.pl_lt
  rw [k.derived.pl, k.derived.blks, k.blk] at hlt
  have hb : convSamsung970Pro.blksPerPln = 8192 := rfl
  have hround : proBlkSize size < 2^62 := by
    unfold proBlkSize divRoundUp u64
    have hdies : samsung970Pro.blksPerPln * (samsung970Pro.plnsPerLun * samsung970Pro.lunsPerNandCh *
      samsung970Pro.nandChannels) = 524288 := by decide
    rw [hdies]
    omega
  rw [k.blk]
  unfold divRoundUp kb u64 at *
  omega

/-- The page of a block that `get_new_page` takes. -/
theorem Allocates.place (h : Allocates size spp a) (k : ProCells size spp) :
    a ≠ unmappedPpa ∧ a.ch < spp.nchs ∧ a.lun < spp.lunsPerCh ∧ (a.pg = 0 ∨ a.pg < spp.pgsPerBlk) := by
  obtain ⟨clk, mem, host, ns, ops, i, io, hr, hi, hnew⟩ := h
  obtain ⟨hnchs, hluns, hblks, _, _, _⟩ := pro_geometry k.derived k.lines
  rcases Nat.eq_zero_or_pos spp.ttPgs with hz | hpos
  · -- no page has ever been taken
    obtain ⟨_, _, _, hall⟩ := hr.frozen hz
    obtain ⟨ssd, hslept, _⟩ := hall i hi
    have hzero : ∃ x, getNewPage (ns.load i) io = .ok (pageAt 0 0 x 0) := by
      rw [hslept]
      cases io
      · exact ⟨0, rfl⟩
      · exact ⟨1, rfl⟩
    obtain ⟨x, hzero⟩ := hzero
    rw [hzero] at hnew
    cases hnew
    refine ⟨mappedPpa_iff.mp (mappedPpa_pageAt _ _ _ _), ?_, ?_, Or.inl rfl⟩
    · change 0 < spp.nchs
      omega
    · change 0 < spp.lunsPerCh
      omega
  · have g := hr.geometry hpos
    obtain ⟨h, fill, hinv, _⟩ := (hr.nsOk hpos).1.sound i hi
    have w := hinv.wp io
    rw [getNewPage_eq hinv g io] at hnew
    cases hnew
    exact ⟨mappedPpa_iff.mp (mappedPpa_pageAt _ _ _ _), (Nat.mod_le _ _).trans_lt w.ch,
      (Nat.mod_le _ _).trans_lt w.lun, Or.inr ((Nat.mod_le _ _).trans_lt w.pg)⟩

theorem Allocates.sensed (h : Allocates size spp a) (k : ProCells size spp) (hsmall : spp.pgsPerBlk ≤ 16) :
    Sensed spp a := by
  obtain ⟨hmapped, hch, hlun, hpg⟩ := h.place k
  refine sensed_of_cell k.cellMode ?_ hmapped hch hlun
  unfold getCell
  rw [k.flash, k.cellMode]
  omega

/-- The place of the write pointer is what its budget lacks of whole lines. -/
theorem Sound.wpIndex_eq {s : ConvFtl} (hs : Sound spp s none) (g : Geometry spp) {m n : Nat}
    (hn : n < spp.pgsPerLine) (hb : budget spp s .user + n = m * spp.pgsPerLine) :
    wpIndex spp (getWp s .user) = n := by
  have hlt := hs.wpIndex_lt g .user
  have hsum : (s.lm.freeLineList.length + 1) * spp.pgsPerLine + n =
      m * spp.pgsPerLine + wpIndex spp (getWp s .user) := by
    rw [← hb, Nat.add_one_mul]
    unfold budget
    omega
  have hmod := congrArg (· % spp.pgsPerLine) hsum
  rw [Nat.add_comm, Nat.add_mul_mod_self_right, Nat.add_comm, Nat.add_mul_mod_self_right,
    Nat.mod_eq_of_lt hn, Nat.mod_eq_of_lt hlt] at hmod
  exact hmod.symm

theorem ProCells.index (k : ProCells size spp) (c l p : Nat) :
    allocIndex spp c l p = ((p / 8 * 8 + l) * 8 + c) * 8 + p % 8 := by
  obtain ⟨hnchs, hluns, _, _, _, _⟩ := pro_geometry k.derived k.lines
  have hone := k.derived.oneshot
  have hsz : convSamsung970Pro.oneshotPageSize = 32768 := by decide
  rw [hsz] at hone
  unfold allocIndex
  rw [hnchs, hluns, show spp.pgsPerOneshotpg = 8 by omega]

/-- The first 1024 pages of a line have addresses, whatever the size of the blocks. -/
theorem ProCells.placeFits (k : ProCells size spp) {wp : WritePointer} (w : WpOk spp wp)
    (hidx : wpIndex spp wp < 1024) : PlaceFits wp := by
  obtain ⟨hnchs, hluns, _, _, _, _⟩ := pro_geometry k.derived k.lines
  have hch := w.ch
  have hlun := w.lun
  unfold wpIndex at hidx
  rw [k.index] at hidx
  constructor
  · unfold chBits
    omega
  · unfold lunBits
    omega
  · unfold pageBits
    omega

/-- The third flash page of a block comes after 1024 pages of the line. -/
theorem ProCells.exists_third (k : ProCells size spp)
    (hspp : ssdInitParams convSamsung970Pro.toSsdConfig size convSamsung970Pro.ssdPartitions = .ok spp)
    (hlarge : 16 < spp.pgsPerBlk) : ∃ a, Allocates size spp a ∧ a.pg = 16 := by
  obtain ⟨hnchs, hluns, hblks, hline, htt, _⟩ := pro_geometry k.derived k.lines
  have hinit := convInitNamespace_eq hspp k.lines (by omega) (fun _ => zeroLeftover)
  have hpos : 0 < spp.ttPgs := by omega
  have g := k.derived.geometry k.lines hpos
  have hpgsz := k.derived.pgsz
  have hone := k.derived.oneshot
  have hsz : convSamsung970Pro.oneshotPageSize = 32768 := by decide
  have hroom : spp.pgsPerOneshotpg * spp.pgsz ≤ u64 convSamsung970Pro.globalWbSize := by
    rw [hpgsz, hone, hsz]
    decide
  obtain ⟨k₀, hbud₀⟩ := Fresh.rewriting (fun _ => 0) hinit hpos rfl hroom
  rw [hblks] at hbud₀
  have hplace : ∀ s, Sound spp s none → 8191 * spp.pgsPerLine < budget spp s .user + 1024 →
      budget spp s .user ≤ 8191 * spp.pgsPerLine → PlaceFits (getWp s .user) := by
    intro s hs hlt hle
    obtain ⟨h, fill, i, hset⟩ := hs
    refine k.placeFits (i.wp .user) ?_
    rw [Sound.wpIndex_eq ⟨h, fill, i, hset⟩ g (m := 8191) (n := 8191 * spp.pgsPerLine - budget spp s .user)
      (by omega) (by omega)]
    omega
  obtain ⟨b, kb, hbud⟩ := k₀.steps g (pro_rated k.derived) hpos k.derived.secsPerPg hpgsz 1024 (by
    dsimp only
    omega) (by
    dsimp only
    rw [hbud₀]
    exact hplace)
  dsimp only at hbud
  rw [hbud₀] at hbud
  have hidx := kb.only.sound.wpIndex_eq g (n := 1024) (m := 8191) (by omega) hbud.symm
  obtain ⟨h, fill, i, _⟩ := kb.only.sound
  have w := i.wp .user
  have hch := w.ch
  have hlun := w.lun
  unfold wpIndex at hidx
  rw [k.index] at hidx
  refine ⟨_, ⟨_, _, _, _, _, 0, .user, kb.run.reachable, ?_, getNewPage_eq i g .user⟩, ?_⟩
  · have hn := kb.parts
    omega
  · change (getWp (b.ns.load 0) .user).pg % 2^pageBits = 16
    unfold pageBits
    omega

/-- On the SAMSUNG_970PRO configuration every page is read with a latency of its cells exactly when a
block has no third flash page. -/
theorem cells_sensed_iff
    (h : ssdInitParams convSamsung970Pro.toSsdConfig size convSamsung970Pro.ssdPartitions = .ok spp) :
    (∀ a, Allocates size spp a → Sensed spp a) ↔ proBlkSize size ≤ 2 * kb 32 := by
  have k := proCells h
  rw [k.small_iff]
  constructor
  · intro hall
    by_contra hlarge
    obtain ⟨a, ha, hpg⟩ := k.exists_third h (Nat.not_le.mp hlarge)
    have hcell := (hall a ha).cell
    unfold getCell at hcell
    rw [hpg, k.flash, k.cellMode] at hcell
    exact absurd hcell (by decide)
  · exact fun hsmall a ha => ha.sensed k hsmall

/-- 32 GiB is the largest size. -/
theorem cells_sensed_32GiB : proBlkSize (2^35) = 2 * kb 32 ∧ proBlkSize (2^35 + 1) = 2 * kb 32 + 1 ∧
    ∃ spp, ∀ a, Allocates (2^35) spp a → Sensed spp a := by
  obtain ⟨spp, hspp⟩ : ∃ spp, ssdInitParams convSamsung970Pro.toSsdConfig (2^35)
      convSamsung970Pro.ssdPartitions = .ok spp := ⟨_, rfl⟩
  exact ⟨by decide, by decide, spp, (cells_sensed_iff hspp).mpr (by decide)⟩

/-- On 64 GiB the page of the third flash page is read in no time at all. -/
theorem third_flash_page_not_sensed : ∃ spp a, Allocates (2^36) spp a ∧ a.pg = 16 ∧ getCell spp a = 2 ∧
    (latencies spp 4096).at (getCell spp a) = 0 ∧ ¬ Sensed spp a := by
  obtain ⟨spp, hspp⟩ : ∃ spp, ssdInitParams convSamsung970Pro.toSsdConfig (2^36)
      convSamsung970Pro.ssdPartitions = .ok spp := ⟨_, rfl⟩
  have k := proCells hspp
  have hlarge : 16 < spp.pgsPerBlk := by
    rw [k.blk]
    decide
  obtain ⟨a, ha, hpg⟩ := k.exists_third hspp hlarge
  have hcell : getCell spp a = 2 := by
    unfold getCell
    rw [hpg, k.flash, k.cellMode]
  refine ⟨spp, a, ha, hpg, hcell, ?_, ?_⟩
  · unfold latencies
    rw [hcell, if_pos rfl, k.latency]
    rfl
  · intro hs
    have hlt := hs.cell
    rw [hcell, k.cellMode] at hlt
    exact absurd hlt (by decide)

end NVMeVirt
