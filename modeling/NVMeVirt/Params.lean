import NVMeVirt.Lib.Outcome
import Mathlib.Algebra.Ring.Nat

/-!
# Build configuration and derived geometry

`SsdConfig` is the set of macros that `ssd_config.h` gives one SSD model.
`ssdInitParams` computes `struct ssdparams` from it, from the capacity and from the
number of partitions. Fields declared `int` in the source are checked to fit 31 bits:
past that the C arithmetic has no meaning. `unsigned long` arithmetic wraps.
-/

namespace NVMeVirt
set_option autoImplicit false
open Outcome

/-- What stops the code: a failed `NVMEV_ASSERT` or `BUG_ON`, the use of a line that
`get_next_free_line` did not have, an access outside an array, a division by zero,
a signed overflow, or a loop that does not come to its end within the given number of turns. -/
inductive Fault where
  | assertion
  | nullLine
  | badAddress
  | divideError
  | intOverflow
  | outOfFuel
  deriving Repr, DecidableEq

def nvmevAssert (p : Prop) [Decidable p] : Except Fault Unit :=
  if p then .ok () else .error .assertion

@[simp] theorem nvmevAssert_true {p : Prop} [Decidable p] (h : p) : nvmevAssert p = .ok () :=
  if_pos h

@[simp] theorem nvmevAssert_false {p : Prop} [Decidable p] (h : ¬ p) :
    nvmevAssert p = .error .assertion := if_neg h

def u32 (x : Nat) : Nat := x % 2^32
def u64 (x : Nat) : Nat := x % 2^64

def asInt (x : Nat) : Except Fault Nat := if x < 2^31 then .ok x else .error .intOverflow

def divisor (d : Nat) : Except Fault Nat := if d = 0 then .error .divideError else .ok d

/-- The kernel's `DIV_ROUND_UP` on 64-bit operands. -/
def divRoundUp (n d : Nat) : Nat := u64 (n + d - 1) / d

def lbaBits : Nat := 9
def lbaSize : Nat := 2^lbaBits
def lbaToByte (lba : Nat) : Nat := lba * lbaSize
def kb (k : Nat) : Nat := k * 2^10

/-- Cell types index the latency arrays of `SsdParams`: LSB, MSB, CSB. -/
structure CellLatency where
  lsb : Nat
  msb : Nat
  csb : Nat
  deriving Repr, DecidableEq

def CellLatency.at (lat : CellLatency) : Nat → Nat
  | 0 => lat.lsb
  | 1 => lat.msb
  | _ => lat.csb

structure SsdConfig where
  mdts : Nat
  cellMode : Nat
  ssdPartitions : Nat
  nandChannels : Nat
  lunsPerNandCh : Nat
  plnsPerLun : Nat
  flashPageSize : Nat
  oneshotPageSize : Nat
  blksPerPln : Nat
  blkSize : Nat
  maxChXferSize : Nat
  writeUnitSize : Nat
  nandChannelBandwidth : Nat
  pcieBandwidth : Nat
  nand4kbReadLatency : CellLatency
  nandReadLatency : CellLatency
  nandProgLatency : Nat
  nandEraseLatency : Nat
  fw4kbReadLatency : Nat
  fwReadLatency : Nat
  fwWbufLatency0 : Nat
  fwWbufLatency1 : Nat
  fwChXferLatency : Nat
  /-- `OP_AREA_PERCENT` in hundredths, so that `(int)((1 + op_area_pcent) * 100)` is exact. -/
  opAreaHundredths : Nat
  globalWbSize : Nat
  writeEarlyCompletion : Bool
  deriving Repr, DecidableEq

def samsung970Pro : SsdConfig where
  mdts := 6
  cellMode := 2
  ssdPartitions := 1
  nandChannels := 8
  lunsPerNandCh := 8
  plnsPerLun := 1
  flashPageSize := kb 32
  oneshotPageSize := kb 32 * 1
  blksPerPln := 8192
  blkSize := 0
  maxChXferSize := kb 16
  writeUnitSize := 512
  nandChannelBandwidth := 800
  pcieBandwidth := 3360
  nand4kbReadLatency := ⟨35760 - 6000, 35760 + 6000, 0⟩
  nandReadLatency := ⟨36013 - 6000, 36013 + 6000, 0⟩
  nandProgLatency := 185000
  nandEraseLatency := 0
  fw4kbReadLatency := 21500
  fwReadLatency := 30490
  fwWbufLatency0 := 4000
  fwWbufLatency1 := 460
  fwChXferLatency := 0
  opAreaHundredths := 7
  globalWbSize := 8 * 8 * (kb 32 * 1) * 2
  writeEarlyCompletion := true

structure SsdParams where
  secsz : Nat
  secsPerPg : Nat
  pgsz : Nat
  pgsPerFlashpg : Nat
  flashpgsPerBlk : Nat
  pgsPerOneshotpg : Nat
  oneshotpgsPerBlk : Nat
  pgsPerBlk : Nat
  blksPerPl : Nat
  plsPerLun : Nat
  lunsPerCh : Nat
  nchs : Nat
  cellMode : Nat
  writeUnitSize : Nat
  writeEarlyCompletion : Bool
  pg4kbRdLat : CellLatency
  pgRdLat : CellLatency
  pgWrLat : Nat
  blkErLat : Nat
  maxChXferSize : Nat
  fw4kbRdLat : Nat
  fwRdLat : Nat
  fwWbufLat0 : Nat
  fwWbufLat1 : Nat
  fwChXferLat : Nat
  chBandwidth : Nat
  pcieBandwidth : Nat
  pgsPerPl : Nat
  pgsPerLun : Nat
  pgsPerCh : Nat
  ttPgs : Nat
  blksPerLun : Nat
  ttLuns : Nat
  blksPerLine : Nat
  pgsPerLine : Nat
  ttLines : Nat
  writeBufferSize : Nat
  deriving Repr, DecidableEq

/-- `blks_per_pl` and `blk_size`: one of the two is configured, the capacity gives the other. -/
def blksAndSize (cfg : SsdConfig) (capacity dies : Nat) : Except Fault (Nat × Nat) :=
  if 0 < cfg.blksPerPln then do
    let d ← asInt (cfg.blksPerPln * dies)
    let d ← divisor d
    return (cfg.blksPerPln, divRoundUp capacity d)
  else do
    nvmevAssert (0 < cfg.blkSize)
    let d ← divisor (u64 (cfg.blkSize * dies))
    let blksPerPl ← asInt (divRoundUp capacity d)
    return (blksPerPl, cfg.blkSize)

def ssdInitParams (cfg : SsdConfig) (capacity nparts : Nat) : Except Fault SsdParams := do
  let secsz := lbaSize
  let secsPerPg := 4096 / lbaSize
  let pgsz := secsz * secsPerPg
  let nparts ← divisor nparts
  nvmevAssert (cfg.nandChannels % nparts = 0)
  let nchs := cfg.nandChannels / nparts
  let dies := cfg.plnsPerLun * cfg.lunsPerNandCh * nchs
  let (blksPerPl, blkSize) ← blksAndSize cfg (capacity / nparts) dies
  nvmevAssert (cfg.oneshotPageSize % pgsz = 0 ∧ cfg.flashPageSize % pgsz = 0)
  let flashPageSize ← divisor cfg.flashPageSize
  nvmevAssert (cfg.oneshotPageSize % flashPageSize = 0)
  let oneshotPageSize ← divisor cfg.oneshotPageSize
  let pgsPerOneshotpg := oneshotPageSize / pgsz
  let oneshotpgsPerBlk ← asInt (divRoundUp blkSize oneshotPageSize)
  let pgsPerFlashpg := flashPageSize / pgsz
  let flashpgsPerBlk ← asInt (oneshotPageSize / flashPageSize * oneshotpgsPerBlk)
  let pgsPerBlk ← asInt (pgsPerOneshotpg * oneshotpgsPerBlk)
  let pgsPerPl ← asInt (pgsPerBlk * blksPerPl)
  let pgsPerLun := u64 (pgsPerPl * cfg.plnsPerLun)
  let pgsPerCh := u64 (pgsPerLun * cfg.lunsPerNandCh)
  let blksPerLun ← asInt (blksPerPl * cfg.plnsPerLun)
  let ttLuns ← asInt (cfg.lunsPerNandCh * nchs)
  pure {
    secsz, secsPerPg, pgsz, pgsPerFlashpg, flashpgsPerBlk, pgsPerOneshotpg, oneshotpgsPerBlk,
    pgsPerBlk, blksPerPl, plsPerLun := cfg.plnsPerLun, lunsPerCh := cfg.lunsPerNandCh, nchs,
    cellMode := cfg.cellMode, writeUnitSize := cfg.writeUnitSize,
    writeEarlyCompletion := cfg.writeEarlyCompletion,
    pg4kbRdLat := cfg.nand4kbReadLatency, pgRdLat := cfg.nandReadLatency,
    pgWrLat := cfg.nandProgLatency, blkErLat := cfg.nandEraseLatency,
    maxChXferSize := cfg.maxChXferSize,
    fw4kbRdLat := cfg.fw4kbReadLatency, fwRdLat := cfg.fwReadLatency,
    fwWbufLat0 := cfg.fwWbufLatency0, fwWbufLat1 := cfg.fwWbufLatency1,
    fwChXferLat := cfg.fwChXferLatency,
    chBandwidth := cfg.nandChannelBandwidth, pcieBandwidth := cfg.pcieBandwidth,
    pgsPerPl, pgsPerLun, pgsPerCh, ttPgs := u64 (pgsPerCh * nchs),
    blksPerLun, ttLuns, blksPerLine := ttLuns, pgsPerLine := u64 (ttLuns * pgsPerBlk),
    ttLines := blksPerLun, writeBufferSize := u64 cfg.globalWbSize }

theorem nvmevAssert_bind_ok {α : Type} {p : Prop} [Decidable p] {f : Unit → Except Fault α} {b : α} :
    (nvmevAssert p >>= f) = .ok b ↔ p ∧ f () = .ok b := by
  by_cases hp : p
  · simp [hp]
  · simp [hp]

theorem asInt_bind_ok {α : Type} {x : Nat} {f : Nat → Except Fault α} {b : α} :
    (asInt x >>= f) = .ok b ↔ x < 2^31 ∧ f x = .ok b := by
  unfold asInt
  by_cases hx : x < 2^31
  · simp only [hx, if_true, ok_bind, true_and]
  · simp only [hx, if_false, error_bind, false_and, reduceCtorEq]

theorem divisor_bind_ok {α : Type} {d : Nat} {f : Nat → Except Fault α} {b : α} :
    (divisor d >>= f) = .ok b ↔ 0 < d ∧ f d = .ok b := by
  unfold divisor
  by_cases hd : d = 0
  · simp only [hd, if_true, error_bind, Nat.lt_irrefl, false_and, reduceCtorEq]
  · simp only [hd, if_false, ok_bind, Nat.pos_of_ne_zero hd, true_and]

theorem asInt_eq {x : Nat} (h : x < 2^31) : asInt x = .ok x := if_pos h

theorem divisor_eq {d : Nat} (h : 0 < d) : divisor d = .ok d := if_neg (Nat.ne_of_gt h)

theorem u64_eq {x : Nat} (h : x < 2^64) : u64 x = x := Nat.mod_eq_of_lt h

theorem blksAndSize_dies {cfg : SsdConfig} {capacity dies : Nat} {r : Nat × Nat}
    (h : blksAndSize cfg capacity dies = .ok r) : 0 < dies := by
  unfold blksAndSize at h
  split at h
  · obtain ⟨_, h⟩ := asInt_bind_ok.mp h
    obtain ⟨hd, _⟩ := divisor_bind_ok.mp h
    exact Nat.pos_of_mul_pos_left hd
  · obtain ⟨_, h⟩ := nvmevAssert_bind_ok.mp h
    obtain ⟨hd, _⟩ := divisor_bind_ok.mp h
    exact Nat.pos_of_mul_pos_left (Nat.lt_of_lt_of_le hd (Nat.mod_le _ _))

/-- The dies of a partition as `ssd_init_params` multiplies them out. -/
def SsdConfig.dies (cfg : SsdConfig) (n : Nat) : Nat :=
  cfg.plnsPerLun * cfg.lunsPerNandCh * (cfg.nandChannels / n)

/-- What `ssd_init_params` has checked when it returns, and what it returns for blocks of `blkSize`. -/
structure Produced (cfg : SsdConfig) (capacity n blkSize : Nat) (spp : SsdParams) : Prop where
  parts_pos : 0 < n
  blks : blksAndSize cfg (capacity / n) (cfg.dies n) = .ok (spp.blksPerPl, blkSize)
  flash_pages : cfg.flashPageSize = 4096 * spp.pgsPerFlashpg
  oneshot_pages : cfg.oneshotPageSize = 4096 * spp.pgsPerOneshotpg
  flash_pos : 0 < spp.pgsPerFlashpg
  oneshot_pos : 0 < spp.pgsPerOneshotpg
  oneshot_flash : cfg.oneshotPageSize = cfg.flashPageSize * (cfg.oneshotPageSize / cfg.flashPageSize)
  secsz : spp.secsz = lbaSize
  secsPerPg : spp.secsPerPg = 8
  pgsz : spp.pgsz = 4096
  nchs : spp.nchs = cfg.nandChannels / n
  luns : spp.lunsPerCh = cfg.lunsPerNandCh
  pls : spp.plsPerLun = cfg.plnsPerLun
  cellMode : spp.cellMode = cfg.cellMode
  latency : spp.pg4kbRdLat = cfg.nand4kbReadLatency
  writeUnitSize : spp.writeUnitSize = cfg.writeUnitSize
  maxChXferSize : spp.maxChXferSize = cfg.maxChXferSize
  chBandwidth : spp.chBandwidth = cfg.nandChannelBandwidth
  pcieBandwidth : spp.pcieBandwidth = cfg.pcieBandwidth
  writeBufferSize : spp.writeBufferSize = u64 cfg.globalWbSize
  oneshotpgs : spp.oneshotpgsPerBlk = divRoundUp blkSize cfg.oneshotPageSize
  flashpgs : spp.flashpgsPerBlk = cfg.oneshotPageSize / cfg.flashPageSize * spp.oneshotpgsPerBlk
  blk : spp.pgsPerBlk = spp.pgsPerOneshotpg * spp.oneshotpgsPerBlk
  blk_lt : spp.pgsPerBlk < 2^31
  pl : spp.pgsPerPl = spp.pgsPerBlk * spp.blksPerPl
  pl_lt : spp.pgsPerPl < 2^31
  lun : spp.pgsPerLun = u64 (spp.pgsPerPl * spp.plsPerLun)
  ch : spp.pgsPerCh = u64 (spp.pgsPerLun * spp.lunsPerCh)
  tt : spp.ttPgs = u64 (spp.pgsPerCh * spp.nchs)
  ttLuns : spp.ttLuns = spp.lunsPerCh * spp.nchs
  luns_lt : spp.lunsPerCh * spp.nchs < 2^31
  line : spp.pgsPerLine = u64 (spp.ttLuns * spp.pgsPerBlk)
  lines : spp.ttLines = spp.blksPerPl * spp.plsPerLun

theorem ssdInitParams_produced {cfg : SsdConfig} {capacity n : Nat} {spp : SsdParams}
    (h : ssdInitParams cfg capacity n = .ok spp) : ∃ blkSize, Produced cfg capacity n blkSize spp := by
  unfold ssdInitParams at h
  obtain ⟨hn, h⟩ := divisor_bind_ok.mp h
  obtain ⟨_, h⟩ := nvmevAssert_bind_ok.mp h
  obtain ⟨⟨blksPerPl, blkSize⟩, hblks, h⟩ := bind_eq_ok.mp h
  obtain ⟨⟨hone, hflash⟩, h⟩ := nvmevAssert_bind_ok.mp h
  obtain ⟨hflash₀, h⟩ := divisor_bind_ok.mp h
  obtain ⟨hdvd, h⟩ := nvmevAssert_bind_ok.mp h
  obtain ⟨hone₀, h⟩ := divisor_bind_ok.mp h
  obtain ⟨_, h⟩ := asInt_bind_ok.mp h
  obtain ⟨_, h⟩ := asInt_bind_ok.mp h
  obtain ⟨hblk, h⟩ := asInt_bind_ok.mp h
  obtain ⟨hpl, h⟩ := asInt_bind_ok.mp h
  obtain ⟨_, h⟩ := asInt_bind_ok.mp h
  obtain ⟨hluns, h⟩ := asInt_bind_ok.mp h
  have hpg : lbaSize * (4096 / lbaSize) = 4096 := by decide
  simp only [hpg] at hone hflash h
  have hone' := Nat.mul_div_cancel' (Nat.dvd_of_mod_eq_zero hone)
  have hflash' := Nat.mul_div_cancel' (Nat.dvd_of_mod_eq_zero hflash)
  cases h
  refine ⟨blkSize, ?_⟩
  exact {
    parts_pos := hn
    blks := hblks
    flash_pages := hflash'.symm
    oneshot_pages := hone'.symm
    flash_pos := Nat.pos_of_mul_pos_left (hflash'.symm ▸ hflash₀)
    oneshot_pos := Nat.pos_of_mul_pos_left (hone'.symm ▸ hone₀)
    oneshot_flash := (Nat.mul_div_cancel' (Nat.dvd_of_mod_eq_zero hdvd)).symm
    secsz := rfl
    secsPerPg := by
      change 4096 / lbaSize = 8
      decide
    pgsz := rfl
    nchs := rfl
    luns := rfl
    pls := rfl
    cellMode := rfl
    latency := rfl
    writeUnitSize := rfl
    maxChXferSize := rfl
    chBandwidth := rfl
    pcieBandwidth := rfl
    writeBufferSize := rfl
    oneshotpgs := rfl
    flashpgs := rfl
    blk := rfl
    blk_lt := hblk
    pl := rfl
    pl_lt := hpl
    lun := rfl
    ch := rfl
    tt := rfl
    ttLuns := rfl
    luns_lt := hluns
    line := rfl
    lines := rfl }

end NVMeVirt
