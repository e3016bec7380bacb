import NVMeVirt.ChannelModel

/-!
# NAND array, write buffer and NAND timing

`ssd.h` and `ssd.c`. The nested arrays `ch[].lun[].pl[].blk[]` are one function of the
block address; indices outside the allocated arrays are `Fault.badAddress`. The clocks
read by the timing code are the parameter `clk`: its `k`-th value is the `k`-th reading,
and `ticks` counts the readings.
-/

namespace NVMeVirt
set_option autoImplicit false
open Outcome

inductive PgStatus where
  | free
  | invalid
  | valid
  deriving Repr, DecidableEq, Inhabited

inductive IoType where
  | user
  | gc
  deriving Repr, DecidableEq

inductive NandOp where
  | read
  | write
  | erase
  | nop
  deriving Repr, DecidableEq

/-- The bit fields of `struct ppa`. -/
structure Ppa where
  pg : Nat
  blk : Nat
  pl : Nat
  lun : Nat
  ch : Nat
  rsv : Nat
  deriving Repr, DecidableEq, Inhabited

def pageBits : Nat := 16
def blkBits : Nat := 16
def plBits : Nat := 8
def lunBits : Nat := 8
def chBits : Nat := 8
def rsbBits : Nat := 64 - (blkBits + pageBits + plBits + lunBits + chBits)

def unmappedPpa : Ppa :=
  ⟨2^pageBits - 1, 2^blkBits - 1, 2^plBits - 1, 2^lunBits - 1, 2^chBits - 1, 2^rsbBits - 1⟩

def invalidLpn : Nat := 2^64 - 1

structure NandPage where
  nsecs : Nat
  status : PgStatus
  deriving Repr, DecidableEq, Inhabited

structure NandBlock where
  pg : Nat → NandPage
  npgs : Nat
  ipc : Nat
  vpc : Nat
  eraseCnt : Nat
  deriving Inhabited

structure BlkAddr where
  ch : Nat
  lun : Nat
  pl : Nat
  blk : Nat
  deriving Repr, DecidableEq

structure NandLun where
  nextLunAvailTime : Nat
  gcEndtime : Nat
  deriving Inhabited

structure SsdChannel where
  lun : Nat → NandLun
  perfModel : ChannelModel
  deriving Inhabited

structure Ssd where
  blk : BlkAddr → NandBlock
  ch : Nat → SsdChannel
  pcie : ChannelModel
  ticks : Nat
  deriving Inhabited

structure NandCmd where
  type : IoType
  cmd : NandOp
  xferSize : Nat
  stime : Nat
  interleavePciDma : Bool
  ppa : Ppa

structure Buffer where
  size : Nat
  remaining : Nat
  deriving Repr, DecidableEq

def bufferInit (size : Nat) : Buffer := ⟨size, size⟩

def bufferAllocate (buf : Buffer) (size : Nat) : Buffer × Nat :=
  let size := if buf.remaining < size then 0 else size
  ({ buf with remaining := buf.remaining - size }, size)

/-- An allocation that gives all it was asked for takes it out of the buffer. -/
theorem bufferAllocate_room {buf : Buffer} {size : Nat} (hs : 0 < size)
    (h : ¬ (bufferAllocate buf size).2 < size) :
    size ≤ buf.remaining ∧
      (bufferAllocate buf size).1 = { buf with remaining := buf.remaining - size } := by
  unfold bufferAllocate at *
  by_cases hlt : buf.remaining < size
  · rw [if_pos hlt] at h
    exact absurd hs h
  · rw [if_neg hlt]
    exact ⟨Nat.not_lt.mp hlt, rfl⟩

def bufferRelease (buf : Buffer) (size : Nat) : Buffer :=
  { buf with remaining := u64 (buf.remaining + size) }

def Ppa.addr (ppa : Ppa) : BlkAddr := ⟨ppa.ch, ppa.lun, ppa.pl, ppa.blk⟩

def ssdInitNandPage (spp : SsdParams) : NandPage := ⟨spp.secsPerPg, .free⟩

def ssdInitNandBlk (spp : SsdParams) : NandBlock where
  pg := fun _ => ssdInitNandPage spp
  npgs := spp.pgsPerBlk
  ipc := 0
  vpc := 0
  eraseCnt := 0

def ssdInitCh (spp : SsdParams) : SsdChannel where
  lun := fun _ => ⟨0, 0⟩
  perfModel :=
    let ch := chmodelInit spp.chBandwidth
    { ch with xferLat := u32 (ch.xferLat + spp.fwChXferLat * unitXferSize / kb 4) }

def ssdInit (spp : SsdParams) : Ssd where
  blk := fun _ => ssdInitNandBlk spp
  ch := fun _ => ssdInitCh spp
  pcie := chmodelInit spp.pcieBandwidth
  ticks := 0

variable (clk : Nat → Nat) (spp : SsdParams)

def getCell (ppa : Ppa) : Nat := ppa.pg / spp.pgsPerFlashpg % (spp.cellMode + 1)

def Ssd.setLun (ssd : Ssd) (ppa : Ppa) (lun : NandLun) : Ssd :=
  let ch := ssd.ch ppa.ch
  { ssd with ch :=
      Function.update ssd.ch ppa.ch { ch with lun := Function.update ch.lun ppa.lun lun } }

def Ssd.getLun (ssd : Ssd) (ppa : Ppa) : NandLun := (ssd.ch ppa.ch).lun ppa.lun

/-- `chmodel_request` on the channel of `ppa`. -/
def ssdAdvanceCh (ssd : Ssd) (ppa : Ppa) (requestTime length : Nat) : Except Fault (Ssd × Nat) := do
  let ch := ssd.ch ppa.ch
  let (model, time) ← chmodelRequest (clk ssd.ticks) ch.perfModel requestTime length
  return ({ ssd with
      ch := Function.update ssd.ch ppa.ch { ch with perfModel := model }
      ticks := ssd.ticks + 1 }, time)

def ssdAdvancePcie (ssd : Ssd) (requestTime length : Nat) : Except Fault (Ssd × Nat) := do
  let (model, time) ← chmodelRequest (clk ssd.ticks) ssd.pcie requestTime length
  return ({ ssd with pcie := model, ticks := ssd.ticks + 1 }, time)

def ssdAdvanceWriteBuffer (ssd : Ssd) (requestTime length : Nat) : Except Fault (Ssd × Nat) :=
  let nsecsLatest := u64 (requestTime + spp.fwWbufLat0 + spp.fwWbufLat1 * divRoundUp length (kb 4))
  ssdAdvancePcie clk ssd nsecsLatest length

/-- The `while (remaining)` of a NAND read: the data leaves the chip in pieces of at most
`max_ch_xfer_size`, each of which may be sent on over PCIe at once. Returns the end of the
last channel transfer and the completion time. -/
def readXfer (ppa : Ppa) (interleave : Bool) :
    Nat → Ssd → Nat → Nat → Nat → Except Fault (Ssd × Nat × Nat)
  | 0, ssd, remaining, chnlStime, completedTime =>
    if remaining = 0 then .ok (ssd, chnlStime, completedTime) else .error .outOfFuel
  | fuel + 1, ssd, remaining, chnlStime, completedTime =>
    if remaining = 0 then .ok (ssd, chnlStime, completedTime)
    else do
      let xferSize := min remaining spp.maxChXferSize
      let (ssd, chnlEtime) ← ssdAdvanceCh clk ssd ppa chnlStime xferSize
      let (ssd, completedTime) ←
        if interleave then ssdAdvancePcie clk ssd chnlEtime xferSize else pure (ssd, chnlEtime)
      readXfer ppa interleave fuel ssd (remaining - xferSize) chnlEtime completedTime

def ssdAdvanceNand (ssd : Ssd) (ncmd : NandCmd) : Except Fault (Ssd × Nat) := do
  let (ssd, cmdStime) :=
    if ncmd.stime = 0 then ({ ssd with ticks := ssd.ticks + 1 }, clk ssd.ticks)
    else (ssd, ncmd.stime)
  let ppa := ncmd.ppa
  if ppa = unmappedPpa then return (ssd, cmdStime)
  if ¬ (ppa.ch < spp.nchs ∧ ppa.lun < spp.lunsPerCh) then .error .badAddress
  let lun := ssd.getLun ppa
  let cell := getCell spp ppa
  match ncmd.cmd with
  | .read => do
    let nandStime := max lun.nextLunAvailTime cmdStime
    let lat := if ncmd.xferSize = 4096 then spp.pg4kbRdLat.at cell else spp.pgRdLat.at cell
    let nandEtime := u64 (nandStime + lat)
    let (ssd, chnlEtime, completedTime) ← readXfer clk spp ppa ncmd.interleavePciDma
      ncmd.xferSize ssd ncmd.xferSize nandEtime nandEtime
    return (ssd.setLun ppa { lun with nextLunAvailTime := chnlEtime }, completedTime)
  | .write => do
    let chnlStime := max lun.nextLunAvailTime cmdStime
    let (ssd, chnlEtime) ← ssdAdvanceCh clk ssd ppa chnlStime ncmd.xferSize
    let nandEtime := u64 (chnlEtime + spp.pgWrLat)
    return (ssd.setLun ppa { lun with nextLunAvailTime := nandEtime }, nandEtime)
  | .erase =>
    let nandStime := max lun.nextLunAvailTime cmdStime
    let nandEtime := u64 (nandStime + spp.blkErLat)
    return (ssd.setLun ppa { lun with nextLunAvailTime := nandEtime }, nandEtime)
  | .nop =>
    let nandStime := max lun.nextLunAvailTime cmdStime
    return (ssd.setLun ppa { lun with nextLunAvailTime := nandStime }, nandStime)

/-- The latest `next_lun_avail_time` of the first `n` LUNs of a channel. -/
def latestLun (ch : SsdChannel) (latest : Nat) : Nat → Nat
  | 0 => latest
  | n + 1 => max (latestLun ch latest n) (ch.lun n).nextLunAvailTime

def latestCh (ssd : Ssd) (latest : Nat) : Nat → Nat
  | 0 => latest
  | n + 1 => latestLun (ssd.ch n) (latestCh ssd latest n) spp.lunsPerCh

def ssdNextIdleTime (ssd : Ssd) : Ssd × Nat :=
  ({ ssd with ticks := ssd.ticks + 1 }, latestCh spp ssd (clk ssd.ticks) spp.nchs)

structure Ssd.PerfOk (ssd : Ssd) : Prop where
  ch : ∀ c, (ssd.ch c).perfModel.Wf
  pcie : ssd.pcie.Wf

/-- The bandwidths give at least one credit per slot and a transfer moves at least one byte. -/
structure Rated (spp : SsdParams) : Prop where
  xfer : 0 < spp.maxChXferSize
  ch : 0 < bandwidthToMaxCredits spp.chBandwidth
  pcie : 0 < bandwidthToMaxCredits spp.pcieBandwidth

theorem ssdInit_perfOk {spp : SsdParams} (h : Rated spp) : (ssdInit spp).PerfOk :=
  ⟨fun _ => ⟨(chmodelInit_wf h.ch).head_lt, (chmodelInit_wf h.ch).validLen_le, h.ch⟩,
    chmodelInit_wf h.pcie⟩

def Timed (ssd ssd' : Ssd) : Prop := ssd'.blk = ssd.blk ∧ ssd'.PerfOk

theorem Timed.trans {a b c : Ssd} (hab : Timed a b) (hbc : Timed b c) : Timed a c :=
  ⟨hbc.1.trans hab.1, hbc.2⟩

theorem Ssd.setLun_timed {ssd : Ssd} (h : ssd.PerfOk) (ppa : Ppa) (lun : NandLun) :
    Timed ssd (ssd.setLun ppa lun) := by
  refine ⟨rfl, ⟨?_, h.pcie⟩⟩
  intro c
  by_cases hc : c = ppa.ch
  · subst hc
    simpa [Ssd.setLun] using h.ch ppa.ch
  · simpa [Ssd.setLun, hc] using h.ch c

theorem ssdAdvanceCh_returns {ssd : Ssd} (h : ssd.PerfOk) (ppa : Ppa) (t len : Nat) :
    ∃ r, ssdAdvanceCh clk ssd ppa t len = .ok r ∧ Timed ssd r.1 := by
  obtain ⟨r, hr, hw⟩ := chmodelRequest_returns (h.ch ppa.ch) (clk ssd.ticks) t len
  refine ⟨_, by simp only [ssdAdvanceCh, hr, ok_bind]; rfl, rfl, ?_, h.pcie⟩
  intro c
  by_cases hc : c = ppa.ch
  · subst hc
    simpa using hw
  · simpa [hc] using h.ch c

theorem ssdAdvancePcie_returns {ssd : Ssd} (h : ssd.PerfOk) (t len : Nat) :
    ∃ r, ssdAdvancePcie clk ssd t len = .ok r ∧ Timed ssd r.1 := by
  obtain ⟨r, hr, hw⟩ := chmodelRequest_returns h.pcie (clk ssd.ticks) t len
  exact ⟨_, by simp only [ssdAdvancePcie, hr, ok_bind]; rfl, rfl, h.ch, hw⟩

theorem readXfer_zero (ssd : Ssd) (ppa : Ppa) (interleave : Bool) (fuel t t' : Nat) :
    readXfer clk spp ppa interleave fuel ssd 0 t t' = .ok (ssd, t, t') := by
  cases fuel <;> simp only [readXfer, ite_true]

theorem readXfer_succ (ssd : Ssd) (ppa : Ppa) (interleave : Bool) (fuel remaining t t' : Nat)
    (h : remaining ≠ 0) :
    readXfer clk spp ppa interleave (fuel+1) ssd remaining t t' = (do
      let xferSize := min remaining spp.maxChXferSize
      let (ssd, chnlEtime) ← ssdAdvanceCh clk ssd ppa t xferSize
      let (ssd, completedTime) ←
        if interleave then ssdAdvancePcie clk ssd chnlEtime xferSize else pure (ssd, chnlEtime)
      readXfer clk spp ppa interleave fuel ssd (remaining - xferSize) chnlEtime completedTime) := by
  rw [readXfer, if_neg h]

theorem readXfer_returns {ssd : Ssd} (h : ssd.PerfOk) (hmax : 0 < spp.maxChXferSize) (ppa : Ppa)
    (interleave : Bool) (fuel remaining t t' : Nat) (hfuel : remaining ≤ fuel) :
    ∃ r, readXfer clk spp ppa interleave fuel ssd remaining t t' = .ok r ∧ Timed ssd r.1 := by
  induction fuel generalizing ssd remaining t t' with
  | zero =>
    have hz : remaining = 0 := by omega
    subst hz
    exact ⟨_, readXfer_zero clk spp ssd ppa interleave 0 t t', rfl, h⟩
  | succ fuel ih =>
    by_cases hz : remaining = 0
    · subst hz
      exact ⟨_, readXfer_zero clk spp ssd ppa interleave _ t t', rfl, h⟩
    · obtain ⟨⟨ssd₁, t₁⟩, h₁, ht₁⟩ :=
        ssdAdvanceCh_returns clk h ppa t (min remaining spp.maxChXferSize)
      obtain ⟨⟨ssd₂, t₂⟩, h₂, ht₂⟩ :=
        ssdAdvancePcie_returns clk ht₁.2 t₁ (min remaining spp.maxChXferSize)
      rw [readXfer_succ _ _ _ _ _ _ _ _ _ hz]
      dsimp only
      rw [h₁, ok_bind]
      dsimp only
      cases interleave with
      | true =>
        obtain ⟨r, hr, ht⟩ := ih ht₂.2 (remaining - min remaining spp.maxChXferSize) t₁ t₂ (by omega)
        refine ⟨r, ?_, ht₁.trans (ht₂.trans ht)⟩
        rw [if_pos rfl, h₂, ok_bind]
        exact hr
      | false =>
        obtain ⟨r, hr, ht⟩ := ih ht₁.2 (remaining - min remaining spp.maxChXferSize) t₁ t₁ (by omega)
        refine ⟨r, ?_, ht₁.trans ht⟩
        rw [if_neg Bool.false_ne_true, pure_eq_ok, ok_bind]
        exact hr

/-- Every NAND command on an existing die returns, and changes timing data only. -/
theorem ssdAdvanceNand_returns {ssd : Ssd} (h : ssd.PerfOk) (hmax : 0 < spp.maxChXferSize)
    (ncmd : NandCmd) (hch : ncmd.ppa.ch < spp.nchs) (hlun : ncmd.ppa.lun < spp.lunsPerCh) :
    ∃ r, ssdAdvanceNand clk spp ssd ncmd = .ok r ∧ Timed ssd r.1 := by
  have hticks : ∀ n, Timed ssd { ssd with ticks := n } := fun n => ⟨rfl, h.ch, h.pcie⟩
  have hstart : ∃ p : Ssd × Nat, (if ncmd.stime = 0 then ({ ssd with ticks := ssd.ticks + 1 }, clk ssd.ticks)
      else (ssd, ncmd.stime)) = p ∧ Timed ssd p.1 := by
    split
    · exact ⟨_, rfl, hticks _⟩
    · exact ⟨_, rfl, rfl, h⟩
  obtain ⟨⟨ssd₀, t₀⟩, h₀, ht₀⟩ := hstart
  unfold ssdAdvanceNand
  rw [h₀]
  dsimp only
  by_cases hun : ncmd.ppa = unmappedPpa
  · exact ⟨_, by rw [if_pos hun]; rfl, ht₀⟩
  · rw [if_neg hun, if_neg (by simp [hch, hlun])]
    cases hop : ncmd.cmd with
    | read =>
      obtain ⟨⟨ssd₁, t₁, t₂⟩, h₁, ht₁⟩ := readXfer_returns clk spp ht₀.2 hmax ncmd.ppa ncmd.interleavePciDma
        ncmd.xferSize ncmd.xferSize
        (u64 (max (ssd₀.getLun ncmd.ppa).nextLunAvailTime t₀ + if ncmd.xferSize = 4096 then
          spp.pg4kbRdLat.at (getCell spp ncmd.ppa) else spp.pgRdLat.at (getCell spp ncmd.ppa)))
        (u64 (max (ssd₀.getLun ncmd.ppa).nextLunAvailTime t₀ + if ncmd.xferSize = 4096 then
          spp.pg4kbRdLat.at (getCell spp ncmd.ppa) else spp.pgRdLat.at (getCell spp ncmd.ppa)))
        (Nat.le_refl _)
      refine ⟨_, by simp only [h₁, ok_bind]; rfl, ht₀.trans (ht₁.trans ?_)⟩
      exact Ssd.setLun_timed ht₁.2 _ _
    | write =>
      obtain ⟨⟨ssd₁, t₁⟩, h₁, ht₁⟩ := ssdAdvanceCh_returns clk ht₀.2 ncmd.ppa
        (max (ssd₀.getLun ncmd.ppa).nextLunAvailTime t₀) ncmd.xferSize
      refine ⟨_, by simp only [h₁, ok_bind]; rfl, ht₀.trans (ht₁.trans ?_)⟩
      exact Ssd.setLun_timed ht₁.2 _ _
    | erase => exact ⟨_, rfl, ht₀.trans (Ssd.setLun_timed ht₀.2 _ _)⟩
    | nop => exact ⟨_, rfl, ht₀.trans (Ssd.setLun_timed ht₀.2 _ _)⟩

theorem ssdAdvanceCh_blk (ssd : Ssd) (ppa : Ppa) (t len : Nat) :
    Sat (ssdAdvanceCh clk ssd ppa t len) (fun r => r.1.blk = ssd.blk) (fun _ => True) := by
  unfold ssdAdvanceCh
  dsimp only
  cases chmodelRequest (clk ssd.ticks) (ssd.ch ppa.ch).perfModel t len with
  | ok r => exact rfl
  | error e => exact trivial

theorem ssdAdvancePcie_blk (ssd : Ssd) (t len : Nat) :
    Sat (ssdAdvancePcie clk ssd t len) (fun r => r.1.blk = ssd.blk) (fun _ => True) := by
  unfold ssdAdvancePcie
  cases chmodelRequest (clk ssd.ticks) ssd.pcie t len with
  | ok r => exact rfl
  | error e => exact trivial

theorem readXfer_blk (ssd : Ssd) (ppa : Ppa) (interleave : Bool) (fuel remaining t t' : Nat) :
    Sat (readXfer clk spp ppa interleave fuel ssd remaining t t') (fun r => r.1.blk = ssd.blk)
      (fun _ => True) := by
  induction fuel generalizing ssd remaining t t' with
  | zero =>
    unfold readXfer
    split
    · exact rfl
    · exact trivial
  | succ fuel ih =>
    by_cases hz : remaining = 0
    · subst hz
      rw [readXfer_zero]
      exact rfl
    · rw [readXfer_succ _ _ _ _ _ _ _ _ _ hz]
      refine (ssdAdvanceCh_blk clk ssd ppa t _).bind ?_
      rintro ⟨ssd₁, t₁⟩ h₁
      cases interleave with
      | true =>
        refine (ssdAdvancePcie_blk clk ssd₁ t₁ _).bind ?_
        rintro ⟨ssd₂, t₂⟩ h₂
        exact (ih ssd₂ _ t₁ t₂).mono (fun r hr => hr.trans (h₂.trans h₁)) (fun _ he => he)
      | false => exact (ih ssd₁ _ t₁ t₁).mono (fun r hr => hr.trans h₁) (fun _ he => he)

theorem ssdAdvanceNand_blk (ssd : Ssd) (ncmd : NandCmd) :
    Sat (ssdAdvanceNand clk spp ssd ncmd) (fun r => r.1.blk = ssd.blk) (fun _ => True) := by
  obtain ⟨⟨ssd₀, t₀⟩, h₀, hb₀⟩ : ∃ p : Ssd × Nat,
      (if ncmd.stime = 0 then ({ ssd with ticks := ssd.ticks + 1 }, clk ssd.ticks)
        else (ssd, ncmd.stime)) = p ∧ p.1.blk = ssd.blk := by
    split
    · exact ⟨_, rfl, rfl⟩
    · exact ⟨_, rfl, rfl⟩
  unfold ssdAdvanceNand
  rw [h₀]
  dsimp only
  split
  · exact hb₀
  · split
    · exact trivial
    · cases hop : ncmd.cmd with
      | read =>
        refine (readXfer_blk clk spp ssd₀ _ _ _ _ _ _).bind ?_
        intro r hr
        exact hr.trans hb₀
      | write =>
        refine (ssdAdvanceCh_blk clk ssd₀ _ _ _).bind ?_
        intro r hr
        exact hr.trans hb₀
      | erase => exact hb₀
      | nop => exact hb₀

/-- A timing operation on any device: it may only stop where the device is not `Rated`. -/
def Paced (spp : SsdParams) (ssd : Ssd) (x : Except Fault (Ssd × Nat)) : Prop :=
  Sat x (fun r => r.1.blk = ssd.blk ∧ (Rated spp → r.1.PerfOk)) (fun _ => ¬ Rated spp)

theorem paced_of {spp : SsdParams} {ssd : Ssd} {x : Except Fault (Ssd × Nat)}
    (hblk : Sat x (fun r => r.1.blk = ssd.blk) (fun _ => True))
    (hret : Rated spp → ∃ r, x = .ok r ∧ Timed ssd r.1) : Paced spp ssd x := by
  unfold Paced
  cases x with
  | ok r =>
    refine ⟨hblk, fun hr => ?_⟩
    obtain ⟨r', hr', ht⟩ := hret hr
    cases hr'
    exact ht.2
  | error e =>
    intro hr
    obtain ⟨r', hr', _⟩ := hret hr
    cases hr'

theorem ssdAdvanceNand_paced {ssd : Ssd} (h : Rated spp → ssd.PerfOk) (ncmd : NandCmd)
    (hch : ncmd.ppa.ch < spp.nchs) (hlun : ncmd.ppa.lun < spp.lunsPerCh) :
    Paced spp ssd (ssdAdvanceNand clk spp ssd ncmd) :=
  paced_of (ssdAdvanceNand_blk clk spp ssd ncmd)
    (fun hr => ssdAdvanceNand_returns clk spp (h hr) hr.xfer ncmd hch hlun)

theorem ssdAdvanceWriteBuffer_paced {ssd : Ssd} (h : Rated spp → ssd.PerfOk) (t len : Nat) :
    Paced spp ssd (ssdAdvanceWriteBuffer clk spp ssd t len) :=
  paced_of (ssdAdvancePcie_blk clk ssd _ len) (fun hr => ssdAdvancePcie_returns clk (h hr) _ len)

end NVMeVirt
