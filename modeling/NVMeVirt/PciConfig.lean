import NVMeVirt.Interrupts
import NVMeVirt.IoCopy
import NVMeVirt.Lib.Registers

/-!
# The PCI configuration space

What `NVMEV_PCI_INIT` puts into it and what `nvmev_pci_write` lets the host change. A write goes
through a mask that its first byte selects, so a bit that two accesses cover may be open to one of
them only.
-/

namespace NVMeVirt
set_option autoImplicit false
open Registers LittleEndian

def offsPciPmCap : Nat := 0x40
def offsPciMsixCap : Nat := 0x50
def offsPcieCap : Nat := 0x60
def pciCfgSpaceSize : Nat := 256
def offsPciExtCap : Nat := pciCfgSpaceSize

def pciCommand : Nat := 0x04
def pciStatus : Nat := 0x06
def pciBist : Nat := 0x0f
def pciBaseAddress0 : Nat := 0x10
def pciInterruptLine : Nat := 0x3c
def pciMsixFlags : Nat := 2

def pciCommandIntxDisable : BitVec 32 := 0x400
def pciBistStart : BitVec 32 := 0x40
def pciMsixFlagsMaskall : BitVec 32 := 0x4000
def pciMsixFlagsEnable : BitVec 32 := 0x8000

/-- `pdev` is `none` before the bus is scanned, and then has the `msix_enabled` of the device. -/
structure PciDev where
  virtDev : Nat → UInt8
  intxDisabled : Bool
  pdev : Option Bool

/-- The low `size` bytes of `*val`. -/
def nvmevPciRead (dev : PciDev) (devfn target size : Nat) : Option Nat :=
  if devfn ≠ 0 then none else some (value dev.virtDev size target)

/-- `pcihdr->sts.is`. -/
def stsIsBit : Nat := 8 * pciStatus + 3

def setStsIs (mem : Nat → UInt8) (is : Bool) : Nat → UInt8 :=
  Function.update mem pciStatus (if is then mem pciStatus ||| 8 else mem pciStatus &&& ~~~8)

def pciWriteMask (target : Nat) : BitVec 32 :=
  if target < offsPciPmCap then
    if target = pciCommand then pciCommandIntxDisable
    else if target = pciStatus then 0xF200
    else if target = pciBist then pciBistStart
    else if target = pciBaseAddress0 then 0xFFFFC000
    else if target = pciInterruptLine then 0xFF
    else 0
  else if target < offsPciMsixCap then ~~~0
  else if target < offsPcieCap then
    if target - offsPciMsixCap = pciMsixFlags then pciMsixFlagsMaskall ||| pciMsixFlagsEnable else 0
  else ~~~0

/-- `val` is what the register held. -/
def PciDev.commandWrite (dev : PciDev) (val newVal : BitVec 32) : PciDev :=
  if (val ^^^ newVal) &&& pciCommandIntxDisable ≠ 0 then
    if newVal &&& pciCommandIntxDisable ≠ 0 then { dev with intxDisabled := true }
    else { dev with intxDisabled := false, virtDev := setStsIs dev.virtDev false }
  else dev

def PciDev.msixFlagsWrite (dev : PciDev) (val newVal : BitVec 32) : PciDev :=
  if dev.pdev.isSome ∧ (val ^^^ newVal) &&& pciMsixFlagsEnable ≠ 0 then
    { dev with pdev := some (decide (newVal &&& pciMsixFlagsEnable ≠ 0)) }
  else dev

def PciDev.writeEffect (dev : PciDev) (target : Nat) (val newVal : BitVec 32) : PciDev :=
  if target = pciCommand then dev.commandWrite val newVal
  else if target = offsPciMsixCap + pciMsixFlags then dev.msixFlagsWrite val newVal
  else dev

/-- The register goes back whole, with what was read before the effects. `devfn` is not looked at. -/
def nvmevPciWrite (dev : PciDev) (target size : Nat) (newVal : BitVec 32) : PciDev :=
  let val := BitVec.ofNat 32 (value dev.virtDev size target)
  let dev := dev.writeEffect target val newVal
  { dev with virtDev := store dev.virtDev target size (merge val newVal (pciWriteMask target)).toNat }

def PciDev.irq (dev : PciDev) : PciIrq :=
  ⟨dev.pdev.getD false, dev.intxDisabled, bit dev.virtDev stsIsBit⟩

/-- `nvmev_signal_irq` as it shows in the configuration space. -/
def PciDev.signal (dev : PciDev) (msiIndex : Nat) : PciDev :=
  { dev with virtDev := setStsIs dev.virtDev (nvmevSignalIrq dev.irq msiIndex).1.stsIs }

inductive ConfigEvent where
  | write (target size : Nat) (newVal : BitVec 32)
  | irq (msiIndex : Nat)
  deriving Repr, DecidableEq

def PciDev.step (dev : PciDev) : ConfigEvent → PciDev
  | .write target size newVal => nvmevPciWrite dev target size newVal
  | .irq msiIndex => dev.signal msiIndex

def PciDev.run (dev : PciDev) (events : List ConfigEvent) : PciDev := events.foldl PciDev.step dev

/-- What the PCI core passes on: a byte, an aligned word or an aligned double word. -/
def ConfigEvent.Accepted : ConfigEvent → Prop
  | .write target size newVal => (size = 1 ∨ size = 2 ∨ size = 4) ∧ size ∣ target ∧ target + size ≤ pageSize ∧
      newVal.toNat < 2^(8 * size)
  | .irq _ => True

/-- The value that an access gives to a bit. -/
def ConfigEvent.writes (b : Nat) : ConfigEvent → Option Bool
  | .write target size newVal =>
    if 8 * target ≤ b ∧ b < 8 * (target + size) ∧ (pciWriteMask target).getLsbD (b - 8 * target) = true then
      some (newVal.getLsbD (b - 8 * target))
    else none
  | .irq _ => none

variable {dev : PciDev} {mem : Nat → UInt8} {b target size : Nat} {newVal val : BitVec 32} {e : ConfigEvent}
  {events : List ConfigEvent}

theorem testBit_setIs (x : UInt8) (is : Bool) {k : Nat} (hk : k < 8) :
    (if is then x ||| 8 else x &&& ~~~8).toNat.testBit k = if k = 3 then is else x.toNat.testBit k := by
  have hone : ∀ k < 8, (8 : UInt8).toNat.testBit k = decide (k = 3) := by decide
  have hrest : ∀ k < 8, (~~~8 : UInt8).toNat.testBit k = decide (k ≠ 3) := by decide
  cases is with
  | true =>
    rw [if_pos rfl, UInt8.toNat_or, Nat.testBit_or, hone k hk]
    by_cases h : k = 3 <;> simp [h]
  | false =>
    rw [if_neg Bool.false_ne_true, UInt8.toNat_and, Nat.testBit_and, hrest k hk]
    by_cases h : k = 3 <;> simp [h]

theorem bit_setStsIs (is : Bool) : bit (setStsIs mem is) b = if b = stsIsBit then is else bit mem b := by
  unfold bit setStsIs
  by_cases hbyte : b / 8 = pciStatus
  · have hiff : b % 8 = 3 ↔ b = stsIsBit := by
      unfold stsIsBit pciStatus at *
      omega
    rw [hbyte, Function.update_self, testBit_setIs _ _ (Nat.mod_lt b (by decide))]
    simp only [hiff]
  · have hne : b ≠ stsIsBit := by
      rintro rfl
      exact hbyte rfl
    rw [Function.update_of_ne hbyte, if_neg hne]

theorem bit_writeEffect (hb : b ≠ stsIsBit) :
    bit (dev.writeEffect target val newVal).virtDev b = bit dev.virtDev b := by
  unfold PciDev.writeEffect
  split
  · unfold PciDev.commandWrite
    split
    · split
      · rfl
      · exact (bit_setStsIs false).trans (if_neg hb)
    · rfl
  split
  · unfold PciDev.msixFlagsWrite
    split <;> rfl
  · rfl

theorem bit_step (hb : b ≠ stsIsBit) (he : e.Accepted) :
    bit (dev.step e).virtDev b = (e.writes b).getD (bit dev.virtDev b) := by
  cases e with
  | irq msiIndex => exact (bit_setStsIs _).trans (if_neg hb)
  | write target size newVal =>
    obtain ⟨hsize, _⟩ := he
    have h := bit_write (a := target) (b := b) dev.virtDev (dev.writeEffect target
      (BitVec.ofNat 32 (value dev.virtDev size target)) newVal).virtDev (show 8 * size ≤ 32 by omega)
      newVal (pciWriteMask target)
    rw [bit_writeEffect hb] at h
    unfold ConfigEvent.writes
    dsimp only
    refine h.trans ?_
    by_cases hin : 8 * target ≤ b ∧ b < 8 * (target + size)
    · by_cases hmask : (pciWriteMask target).getLsbD (b - 8 * target) = true
      · rw [if_pos hin, if_pos hmask, if_pos ⟨hin.1, hin.2, hmask⟩]
        rfl
      · rw [if_pos hin, if_neg hmask, if_neg (fun h => hmask h.2.2)]
        rfl
    · rw [if_neg hin, if_neg (fun h => hin ⟨h.1, h.2.1⟩)]
      rfl

/-- Which bits of a byte of the configuration space the host can change. -/
def openBits (i : Nat) : UInt8 :=
  if i = 0x05 then 0x04
  else if i = 0x07 then 0xF2
  else if i = 0x0f then 0x40
  else if i = 0x11 then 0xC0
  else if i = 0x12 ∨ i = 0x13 ∨ i = 0x3c then 0xFF
  else if i = 0x53 then 0xC0
  else if offsPciPmCap ≤ i ∧ i < offsPciMsixCap ∨ offsPcieCap ≤ i ∧ i < pageSize then 0xFF
  else 0

def Writable (b : Nat) : Prop := (openBits (b / 8)).toNat.testBit (b % 8) = true

instance (b : Nat) : Decidable (Writable b) := inferInstanceAs (Decidable (_ = true))

theorem mask_writable : ∀ target < 0x60, ∀ size, size = 1 ∨ size = 2 ∨ size = 4 → size ∣ target →
    ∀ j < 8 * size, (pciWriteMask target).getLsbD j = true → Writable (8 * target + j) := by
  have hall : ∀ target < 0x60, ∀ size ∈ [1, 2, 4], size ∣ target → ∀ j < 8 * size,
      (pciWriteMask target).getLsbD j = true → Writable (8 * target + j) := by decide +kernel
  intro target ht size hs
  exact hall target ht size (by simpa using hs)

theorem pciWriteMask_above (h : offsPcieCap ≤ target) (j : Nat) :
    (pciWriteMask target).getLsbD j = decide (j < 32) := by
  unfold pciWriteMask
  rw [if_neg, if_neg, if_neg (Nat.not_lt.mpr h)]
  · exact BitVec.getLsbD_allOnes
  · unfold offsPciMsixCap offsPcieCap at *
    omega
  · unfold offsPciPmCap offsPcieCap at *
    omega

theorem writable_above (h : 8 * offsPcieCap ≤ b) (hb : b < 8 * pageSize) : Writable b := by
  have hall : ∀ j < 8, (0xFF : UInt8).toNat.testBit j = true := by decide
  have hopen : openBits (b / 8) = 0xFF := by
    unfold openBits offsPciPmCap offsPciMsixCap offsPcieCap pageSize at *
    rw [if_neg (by omega), if_neg (by omega), if_neg (by omega), if_neg (by omega), if_neg (by omega),
      if_neg (by omega), if_pos (by omega)]
  unfold Writable
  rw [hopen]
  exact hall _ (Nat.mod_lt b (by decide))

theorem writes_writable (he : e.Accepted) (hw : e.writes b ≠ none) : Writable b := by
  cases e with
  | irq msiIndex => exact absurd rfl hw
  | write target size newVal =>
    obtain ⟨hsize, halign, hend, _⟩ := he
    unfold ConfigEvent.writes at hw
    dsimp only at hw
    split at hw
    swap
    · exact absurd rfl hw
    rename_i hin
    obtain ⟨h₁, h₂, hmask⟩ := hin
    by_cases ht : target < 0x60
    · have hat : 8 * target + (b - 8 * target) = b := by omega
      have h := mask_writable target ht size hsize halign (b - 8 * target) (by omega) hmask
      rwa [hat] at h
    · exact writable_above (by unfold offsPcieCap; omega) (by omega)

/-- The registers below the PCI Express capability that have open bits. -/
def openRegisters : List (Nat × Nat) :=
  [(pciCommand, 2), (pciStatus, 2), (pciBist, 1), (pciBaseAddress0, 4), (pciInterruptLine, 1),
    (offsPciMsixCap + pciMsixFlags, 2)] ++ (List.range 16).map (fun i => (offsPciPmCap + i, 1))

theorem writable_mask : ∀ b < 8 * 0x60, Writable b → ∃ r ∈ openRegisters, 8 * r.1 ≤ b ∧ b < 8 * (r.1 + r.2) ∧
    (pciWriteMask r.1).getLsbD (b - 8 * r.1) = true := by decide +kernel

theorem writable_lt (h : Writable b) : b < 8 * pageSize := by
  by_contra hge
  have hclosed : openBits (b / 8) = 0 := by
    unfold openBits offsPciPmCap offsPciMsixCap offsPcieCap pageSize at *
    rw [if_neg (by omega), if_neg (by omega), if_neg (by omega), if_neg (by omega), if_neg (by omega),
      if_neg (by omega), if_neg (by omega)]
  unfold Writable at h
  rw [hclosed] at h
  simp at h

/-- An access that gives an open bit of a register the value wanted. -/
theorem exists_write (hsize : size = 1 ∨ size = 2 ∨ size = 4) (halign : size ∣ target)
    (hend : target + size ≤ pageSize) (h₁ : 8 * target ≤ b) (h₂ : b < 8 * (target + size))
    (hmask : (pciWriteMask target).getLsbD (b - 8 * target) = true) (is : Bool) :
    ∃ e : ConfigEvent, e.Accepted ∧ e.writes b = some is := by
  have hbit : b - 8 * target < 8 * size := by omega
  cases is with
  | true =>
    have hlt : 2^(b - 8 * target) < 2^(8 * size) := Nat.pow_lt_pow_right (by decide) hbit
    have hword : 2^(8 * size) ≤ 2^32 := Nat.pow_le_pow_right (by decide) (by omega)
    refine ⟨.write target size (BitVec.ofNat 32 (2^(b - 8 * target))), ⟨hsize, halign, hend, ?_⟩, ?_⟩
    · rwa [BitVec.toNat_ofNat, Nat.mod_eq_of_lt (Nat.lt_of_lt_of_le hlt hword)]
    · unfold ConfigEvent.writes
      dsimp only
      rw [if_pos ⟨h₁, h₂, hmask⟩, BitVec.getLsbD_ofNat, Nat.testBit_two_pow_self, decide_eq_true (by omega)]
      rfl
  | false =>
    refine ⟨.write target size 0, ⟨hsize, halign, hend, Nat.two_pow_pos _⟩, ?_⟩
    unfold ConfigEvent.writes
    dsimp only
    rw [if_pos ⟨h₁, h₂, hmask⟩]
    simp

theorem openRegisters_accepted : ∀ r ∈ openRegisters, (r.2 = 1 ∨ r.2 = 2 ∨ r.2 = 4) ∧ r.2 ∣ r.1 ∧
    r.1 + r.2 ≤ pageSize := by decide

theorem writable_open (h : Writable b) (is : Bool) :
    ∃ e : ConfigEvent, e.Accepted ∧ e.writes b = some is := by
  have hlt := writable_lt h
  by_cases hb : b < 8 * 0x60
  · obtain ⟨r, hr, h₁, h₂, hmask⟩ := writable_mask b hb h
    obtain ⟨hsize, halign, hend⟩ := openRegisters_accepted r hr
    exact exists_write hsize halign hend h₁ h₂ hmask is
  · have hmask : (pciWriteMask (b / 8)).getLsbD (b - 8 * (b / 8)) = true := by
      rw [pciWriteMask_above (by unfold offsPcieCap; omega)]
      exact decide_eq_true (by omega)
    exact exists_write (Or.inl rfl) (Nat.one_dvd _) (by omega) (by omega) (by omega) hmask is

def intxDisableBit : Nat := 8 * pciCommand + 10

theorem and_intxDisable (x : BitVec 32) : x &&& pciCommandIntxDisable ≠ 0 ↔ x.getLsbD 10 = true := by
  have hpow : pciCommandIntxDisable = BitVec.twoPow 32 10 := by decide
  rw [hpow, BitVec.and_twoPow]
  cases x.getLsbD 10 with
  | true => exact iff_of_true (by decide) rfl
  | false => exact iff_of_false (by decide) Bool.false_ne_true

theorem commandWrite_intxDisabled : (dev.commandWrite val newVal).intxDisabled =
    if val.getLsbD 10 = newVal.getLsbD 10 then dev.intxDisabled else newVal.getLsbD 10 := by
  unfold PciDev.commandWrite
  simp only [and_intxDisable, BitVec.getLsbD_xor]
  cases val.getLsbD 10 <;> cases newVal.getLsbD 10 <;> rfl

theorem writeEffect_intxDisabled (h : target ≠ pciCommand) :
    (dev.writeEffect target val newVal).intxDisabled = dev.intxDisabled := by
  unfold PciDev.writeEffect
  rw [if_neg h]
  split
  · unfold PciDev.msixFlagsWrite
    split <;> rfl
  · rfl

/-- Only a write to the command register, as a word or more, has the bit. -/
theorem writes_intxDisable (he : (ConfigEvent.write target size newVal).Accepted)
    (hw : (ConfigEvent.write target size newVal).writes intxDisableBit ≠ none) :
    target = pciCommand ∧ size ≠ 1 := by
  obtain ⟨hsize, halign, _⟩ := he
  unfold ConfigEvent.writes at hw
  dsimp only at hw
  split at hw
  swap
  · exact absurd rfl hw
  rename_i hin
  obtain ⟨h₁, h₂, hmask⟩ := hin
  have hat : intxDisableBit = 42 := rfl
  rw [hat] at h₁ h₂
  have hcases : target = 4 ∧ size ≠ 1 ∨ target = 5 := by
    obtain ⟨k, rfl⟩ := halign
    rcases hsize with rfl | rfl | rfl <;> omega
  rcases hcases with h | rfl
  · exact h
  · exact absurd hmask (by decide)

theorem step_intx (he : e.Accepted) (h : dev.intxDisabled = bit dev.virtDev intxDisableBit) :
    (dev.step e).intxDisabled = bit (dev.step e).virtDev intxDisableBit := by
  rw [bit_step (by decide) he]
  cases e with
  | irq msiIndex => exact h
  | write target size newVal =>
    change (dev.writeEffect target _ newVal).intxDisabled = _
    by_cases ht : target = pciCommand ∧ size ≠ 1
    · obtain ⟨rfl, hne⟩ := ht
      have hw : (ConfigEvent.write pciCommand size newVal).writes intxDisableBit =
          some (newVal.getLsbD 10) := by
        unfold ConfigEvent.writes
        have hsize := he.1
        exact if_pos ⟨by decide, by unfold intxDisableBit; omega, by decide⟩
      have hval : (BitVec.ofNat 32 (value dev.virtDev size pciCommand)).getLsbD 10 =
          bit dev.virtDev intxDisableBit := by
        have hsize := he.1
        rw [BitVec.getLsbD_ofNat, testBit_value, decide_eq_true (show 10 < 8 * size by omega)]
        rfl
      rw [hw]
      change (dev.commandWrite _ newVal).intxDisabled = newVal.getLsbD 10
      rw [commandWrite_intxDisabled, hval, ← h]
      split
      · assumption
      · rfl
    · have hnone : (ConfigEvent.write target size newVal).writes intxDisableBit = none := by
        by_contra hw
        exact ht (writes_intxDisable he hw)
      rw [hnone]
      by_cases htarget : target = pciCommand
      · -- a byte of the command register: both bits are off
        obtain rfl : size = 1 := by
          by_contra hne
          exact ht ⟨htarget, hne⟩
        subst htarget
        have hnew : newVal.getLsbD 10 = false := by
          rw [← BitVec.testBit_toNat]
          exact Nat.testBit_lt_two_pow (Nat.lt_of_lt_of_le he.2.2.2 (by decide))
        change (dev.commandWrite _ newVal).intxDisabled = _
        rw [commandWrite_intxDisabled, hnew, BitVec.getLsbD_ofNat, testBit_value]
        exact h
      · exact (writeEffect_intxDisabled htarget).trans h

/-- A word write to the command register, INTx being off before it and on after it. -/
def PciDev.TurnsIntxOn (dev : PciDev) : ConfigEvent → Prop
  | .write target size newVal =>
    target = pciCommand ∧ size = 2 ∧ bit dev.virtDev intxDisableBit = true ∧ newVal.getLsbD 10 = false
  | .irq _ => False

instance PciDev.decidableTurnsIntxOn (dev : PciDev) : (e : ConfigEvent) → Decidable (dev.TurnsIntxOn e)
  | .write _ _ _ => inferInstanceAs (Decidable (_ ∧ _ ∧ _ ∧ _))
  | .irq _ => inferInstanceAs (Decidable False)

theorem commandWrite_sts : bit (dev.commandWrite val newVal).virtDev stsIsBit =
    if val.getLsbD 10 = true ∧ newVal.getLsbD 10 = false then false else bit dev.virtDev stsIsBit := by
  unfold PciDev.commandWrite
  simp only [and_intxDisable, BitVec.getLsbD_xor]
  cases val.getLsbD 10 with
  | false => cases newVal.getLsbD 10 <;> rfl
  | true =>
    cases newVal.getLsbD 10 with
    | true => rfl
    | false => exact (bit_setStsIs false).trans (if_pos rfl)

theorem writeEffect_sts : bit (dev.writeEffect target val newVal).virtDev stsIsBit =
    if target = pciCommand ∧ val.getLsbD 10 = true ∧ newVal.getLsbD 10 = false then false
    else bit dev.virtDev stsIsBit := by
  unfold PciDev.writeEffect
  by_cases ht : target = pciCommand
  · rw [if_pos ht, commandWrite_sts]
    exact if_congr (by rw [and_iff_right ht]) rfl rfl
  · have hnot : ¬ (target = pciCommand ∧ val.getLsbD 10 = true ∧ newVal.getLsbD 10 = false) :=
      fun h => ht h.1
    rw [if_neg ht, if_neg hnot]
    split
    · unfold PciDev.msixFlagsWrite
      split <;> rfl
    · rfl

/-- A write keeps the status bit, the one that turns INTx on apart. -/
theorem write_sts (he : (ConfigEvent.write target size newVal).Accepted) :
    bit (dev.step (.write target size newVal)).virtDev stsIsBit = true ↔
      bit dev.virtDev stsIsBit = true ∧ ¬ dev.TurnsIntxOn (.write target size newVal) := by
  have hsize := he.1
  have hstep := bit_write (a := target) (b := stsIsBit) dev.virtDev (dev.writeEffect target
    (BitVec.ofNat 32 (value dev.virtDev size target)) newVal).virtDev (show 8 * size ≤ 32 by omega) newVal
    (pciWriteMask target)
  refine (congrArg (· = true) hstep).to_iff.trans ?_
  have hat : stsIsBit = 51 := rfl
  by_cases hin : 8 * target ≤ stsIsBit ∧ stsIsBit < 8 * (target + size)
  · -- the register has the bit, and it is closed: a word write to the command register has not
    have hmask : ¬ (pciWriteMask target).getLsbD (stsIsBit - 8 * target) = true := by
      intro hmask
      have hw : (ConfigEvent.write target size newVal).writes stsIsBit ≠ none := by
        unfold ConfigEvent.writes
        dsimp only
        rw [if_pos ⟨hin.1, hin.2, hmask⟩]
        exact Option.some_ne_none _
      exact absurd (writes_writable he hw) (by decide)
    have hkeep : ¬ dev.TurnsIntxOn (.write target size newVal) := by
      rintro ⟨rfl, rfl, -⟩
      exact absurd hin (by decide)
    rw [if_pos hin, if_neg hmask]
    exact (and_iff_left hkeep).symm
  · rw [if_neg hin, writeEffect_sts]
    have hiff : target = pciCommand ∧ (BitVec.ofNat 32 (value dev.virtDev size target)).getLsbD 10 = true ∧
        newVal.getLsbD 10 = false ↔ dev.TurnsIntxOn (.write target size newVal) := by
      refine and_congr_right ?_
      rintro rfl
      rw [BitVec.getLsbD_ofNat, testBit_value]
      rcases hsize with rfl | rfl | rfl
      · exact iff_of_false (fun h => absurd h.1 (by simp)) (fun h => absurd h.1 (by decide))
      · exact ⟨fun h => ⟨rfl, by simpa [bit, intxDisableBit, pciCommand] using h.1, h.2⟩,
          fun h => ⟨by simpa [bit, intxDisableBit, pciCommand] using h.2.1, h.2.2⟩⟩
      · exact absurd ⟨by decide, by decide⟩ hin
    rw [if_congr hiff rfl rfl]
    by_cases hon : dev.TurnsIntxOn (.write target size newVal)
    · rw [if_pos hon]
      exact iff_of_false Bool.false_ne_true (fun h => h.2 hon)
    · rw [if_neg hon]
      exact (and_iff_left hon).symm

/-- A pending interrupt stays pending, the word write that turns INTx on apart. -/
theorem step_sts (he : e.Accepted) (h : bit dev.virtDev stsIsBit = true) :
    bit (dev.step e).virtDev stsIsBit = true ↔ ¬ dev.TurnsIntxOn e := by
  cases e with
  | irq msiIndex =>
    refine iff_of_true ?_ id
    refine (bit_setStsIs _).trans ?_
    rw [if_pos rfl]
    unfold nvmevSignalIrq
    split
    · exact h
    · rfl
  | write target size newVal => exact (write_sts he).trans (and_iff_right h)

theorem bit_run (hev : ∀ e ∈ events, e.Accepted) (hb : b ≠ stsIsBit) : bit (dev.run events).virtDev b =
    lastWritten (ConfigEvent.writes b) events (bit dev.virtDev b) := by
  have hstep : ∀ (dev : PciDev) (e : ConfigEvent), e.Accepted →
      bit (dev.step e).virtDev b = (e.writes b).getD (bit dev.virtDev b) := fun _ _ => bit_step hb
  exact get_run (g := fun dev => bit dev.virtDev b) hstep hev dev

theorem closed_kept (hev : ∀ e ∈ events, e.Accepted) (hb : b ≠ stsIsBit) (hclosed : ¬ Writable b) :
    bit (dev.run events).virtDev b = bit dev.virtDev b := by
  rw [bit_run hev hb]
  refine lastWritten_none (fun e he => ?_) _
  by_contra hw
  exact hclosed (writes_writable (hev e he) hw)

theorem run_intx (hev : ∀ e ∈ events, e.Accepted) (h : dev.intxDisabled = bit dev.virtDev intxDisableBit) :
    (dev.run events).intxDisabled = bit (dev.run events).virtDev intxDisableBit := by
  have hstep : ∀ (dev : PciDev) (e : ConfigEvent), e.Accepted →
      dev.intxDisabled = bit dev.virtDev intxDisableBit →
      (dev.step e).intxDisabled = bit (dev.step e).virtDev intxDisableBit := fun _ _ => step_intx
  exact run_keeps hstep hev h

theorem run_sts (hev : ∀ e ∈ events, e.Accepted) (h : bit dev.virtDev stsIsBit = true)
    (hoff : ∀ i (hi : i < events.length), ¬ (dev.run (events.take i)).TurnsIntxOn events[i]) :
    bit (dev.run events).virtDev stsIsBit = true := by
  induction events generalizing dev with
  | nil => exact h
  | cons e rest ih =>
    obtain ⟨he, hrest⟩ := List.forall_mem_cons.mp hev
    refine ih hrest ((step_sts he h).mpr (hoff 0 (Nat.succ_pos _))) ?_
    exact fun i hi => hoff (i + 1) (Nat.succ_lt_succ hi)

/-- What the configuration space holds after any accesses and interrupts. -/
theorem config_space_exact (hev : ∀ e ∈ events, e.Accepted) :
    (∀ b, b ≠ stsIsBit → bit (dev.run events).virtDev b =
      lastWritten (ConfigEvent.writes b) events (bit dev.virtDev b)) ∧
    (∀ b, b ≠ stsIsBit → ¬ Writable b → bit (dev.run events).virtDev b = bit dev.virtDev b) ∧
    (∀ b, Writable b → ∀ is, ∃ e : ConfigEvent, e.Accepted ∧ e.writes b = some is) ∧
    (dev.intxDisabled = bit dev.virtDev intxDisableBit →
      (dev.run events).intxDisabled = bit (dev.run events).virtDev intxDisableBit) ∧
    (bit dev.virtDev stsIsBit = true →
      (∀ i (hi : i < events.length), ¬ (dev.run (events.take i)).TurnsIntxOn events[i]) →
      bit (dev.run events).virtDev stsIsBit = true) ∧
    (∀ e, e.Accepted → bit (dev.run events).virtDev stsIsBit = true →
      (bit ((dev.run events).step e).virtDev stsIsBit = false ↔ (dev.run events).TurnsIntxOn e)) := by
  refine ⟨fun b hb => bit_run hev hb, fun b hb hclosed => closed_kept hev hb hclosed,
    fun b hb is => writable_open hb is, run_intx hev, run_sts hev, ?_⟩
  · intro e he h
    rw [← Bool.not_eq_true, step_sts he h, not_not]

/-- An interrupt is pending. INTx is turned off with a word and on with a double word, written
again while it is on, and turned off. -/
def pendingDev : PciDev := ⟨setStsIs (fun _ => 0) true, false, none⟩
def offAndOn : List ConfigEvent :=
  [.write pciCommand 2 0x400, .write pciCommand 4 0, .write pciCommand 2 0x006, .write pciCommand 2 0x400]

/-- It stays pending until a word turns INTx on. -/
theorem config_space_exact_pending : bit (pendingDev.run offAndOn).virtDev stsIsBit = true ∧
    bit (pendingDev.run offAndOn).virtDev intxDisableBit = true ∧
    (pendingDev.run offAndOn).intxDisabled = true ∧
    bit ((pendingDev.run offAndOn).step (.write pciCommand 2 0)).virtDev stsIsBit = false := by
  have hev : ∀ e ∈ offAndOn, e.Accepted := by
    unfold offAndOn
    simp only [List.forall_mem_cons, List.not_mem_nil, false_imp_iff, implies_true, and_true]
    refine ⟨?_, ?_, ?_, ?_⟩ <;> exact ⟨by decide, by decide, by decide, by decide⟩
  obtain ⟨hlast, _, _, hintx, hsts, hclears⟩ := @config_space_exact pendingDev offAndOn hev
  have hoff : bit (pendingDev.run offAndOn).virtDev intxDisableBit = true :=
    (hlast intxDisableBit (by decide)).trans (by decide)
  have hpending := hsts (by decide) (by decide)
  refine ⟨hpending, hoff, (hintx (by decide)).trans hoff, ?_⟩
  exact (hclears (.write pciCommand 2 0) ⟨by decide, by decide, by decide, by decide⟩ hpending).mpr
    ⟨rfl, rfl, hoff, by decide⟩

def nvmevDeviceId : Nat := 0x0110
def nvmevVendorId : Nat := 0x0c51
def nvmevSubsystemId : Nat := 0x370d
def nvmevSubsystemVendorId : Nat := nvmevVendorId
def nvmevIntxIrq : Nat := 15

def pciCapIdPm : Nat := 0x01
def pciCapIdMsix : Nat := 0x11
def pciCapIdExp : Nat := 0x10

/-- Fields of one word are put together: the memory comes zeroed. -/
def pciHeaderSettings (mem : Nat → UInt8) (basePa : Nat) : Nat → UInt8 :=
  let mem := store (store mem 2 2 nvmevDeviceId) 0 2 nvmevVendorId
  let mem := store (store mem pciCommand 2 (1 <<< 1)) pciStatus 2 (1 <<< 4)
  let mem := store (store mem 0x0e 1 0) 0x08 1 0x01
  let mem := store (store (store mem 0x0b 1 0x01) 0x0a 1 0x08) 0x09 1 0x02
  let mem := store mem pciBaseAddress0 4 ((0x04 >>> 1) <<< 1 ||| ((basePa &&& 0xFFFFFFFF) >>> 14) <<< 14)
  let mem := store mem 0x14 4 (basePa >>> 32)
  let mem := store (store mem 0x2e 2 nvmevSubsystemId) 0x2c 2 nvmevSubsystemVendorId
  let mem := store (store mem 0x30 4 0) 0x34 1 offsPciPmCap
  store (store mem 0x3d 1 0) pciInterruptLine 1 nvmevIntxIrq

def pciPmcapSettings (mem : Nat → UInt8) : Nat → UInt8 :=
  let mem := store (store mem offsPciPmCap 1 pciCapIdPm) (offsPciPmCap + 1) 1 offsPciMsixCap
  store (store mem (offsPciPmCap + 2) 2 3) (offsPciPmCap + 4) 2 (1 <<< 3 ||| 0x0800 >>> 16)

def pciMsixcapSettings (mem : Nat → UInt8) : Nat → UInt8 :=
  let mem := store (store mem offsPciMsixCap 1 pciCapIdMsix) (offsPciMsixCap + 1) 1 offsPcieCap
  let mem := store mem (offsPciMsixCap + pciMsixFlags) 2 (1 <<< 15 ||| 127)
  store (store mem (offsPciMsixCap + 4) 4 (0x400 <<< 3)) (offsPciMsixCap + 8) 4 (0x1000 <<< 3)

def pciPciecapSettings (mem : Nat → UInt8) : Nat → UInt8 :=
  let mem := store (store mem offsPcieCap 1 pciCapIdExp) (offsPcieCap + 1) 1 0
  let mem := store (store mem (offsPcieCap + 2) 1 2) (offsPcieCap + 3) 1 0
  store mem (offsPcieCap + 4) 4 (1 ||| 1 <<< 5 ||| 6 <<< 6 ||| 2 <<< 9 ||| 1 <<< 15 ||| 1 <<< 28)

/-- An extended capability: its id, version 1 and the offset of the next one. -/
def extCap (cid next : Nat) : Nat := cid ||| 1 <<< 16 ||| next <<< 20

def pciExtcapSettings (mem : Nat → UInt8) : Nat → UInt8 :=
  let mem := store mem offsPciExtCap 4 (extCap 0x01 (pciCfgSpaceSize + 0x50))
  let mem := store mem (offsPciExtCap + 0x50) 4 (extCap 0x02 (pciCfgSpaceSize + 0x80))
  let mem := store mem (offsPciExtCap + 0x80) 4 (extCap 0x04 (pciCfgSpaceSize + 0x90))
  let mem := store mem (offsPciExtCap + 0x90) 4 (extCap 0x0e (pciCfgSpaceSize + 0x170))
  let mem := store mem (offsPciExtCap + 0x170) 4 (extCap 0x03 (pciCfgSpaceSize + 0x1a0))
  store mem (offsPciExtCap + 0x1a0) 4 (extCap 0x19 0)

/-- The device before the bus is scanned, for a memory map at `basePa`. -/
def nvmevPciInit (basePa : Nat) : PciDev where
  virtDev := pciExtcapSettings (pciPciecapSettings (pciMsixcapSettings (pciPmcapSettings
    (pciHeaderSettings (fun _ => 0) basePa))))
  intxDisabled := false
  pdev := none

/-- From the start on `intx_disabled` mirrors the command register. -/
theorem intx_mirrors (basePa : Nat) (hev : ∀ e ∈ events, e.Accepted) :
    ((nvmevPciInit basePa).run events).intxDisabled =
      bit ((nvmevPciInit basePa).run events).virtDev intxDisableBit := by
  have hbyte : (nvmevPciInit basePa).virtDev 5 = 0 := rfl
  have hbit : bit (nvmevPciInit basePa).virtDev intxDisableBit = false :=
    (congrArg (fun x : UInt8 => x.toNat.testBit 2) hbyte).trans (by decide)
  exact run_intx hev hbit.symm

/-- Offsets and ids of the capabilities, from the pointer at `ptr` on. -/
def capabilities (mem : Nat → UInt8) : Nat → Nat → List (Nat × Nat)
  | 0, _ => []
  | ttl + 1, ptr =>
    if (mem ptr).toNat = 0 then []
    else ((mem ptr).toNat, (mem (mem ptr).toNat).toNat) :: capabilities mem ttl ((mem ptr).toNat + 1)

variable {basePa : Nat}

theorem byte_ext {x y : UInt8} (h : ∀ k < 8, x.toNat.testBit k = y.toNat.testBit k) : x = y := by
  apply UInt8.toNat_inj.mp
  apply Nat.eq_of_testBit_eq
  intro k
  by_cases hk : k < 8
  · exact h k hk
  · have hpow : 2^8 ≤ 2^k := Nat.pow_le_pow_right (by decide) (Nat.le_of_not_lt hk)
    rw [Nat.testBit_lt_two_pow (Nat.lt_of_lt_of_le x.toNat_lt hpow),
      Nat.testBit_lt_two_pow (Nat.lt_of_lt_of_le y.toNat_lt hpow)]

theorem byte_kept (hev : ∀ e ∈ events, e.Accepted) {i : Nat} (hi : i ≠ pciStatus)
    (h : ∀ e ∈ events, ∀ b, b / 8 = i → e.writes b = none) : (dev.run events).virtDev i = dev.virtDev i := by
  apply byte_ext
  intro k hk
  have hbyte : (8 * i + k) / 8 = i := by omega
  have hb : 8 * i + k ≠ stsIsBit := by
    unfold stsIsBit
    omega
  have hbit : ∀ mem : Nat → UInt8, bit mem (8 * i + k) = (mem i).toNat.testBit k := by
    intro mem
    rw [bit, hbyte, Nat.mul_add_mod, Nat.mod_eq_of_lt hk]
  rw [← hbit, ← hbit, bit_run hev hb]
  exact lastWritten_none (fun e he => h e he _ hbyte) _

theorem closed_unwritten (he : e.Accepted) {i : Nat} (hclosed : openBits i = 0) (hb : b / 8 = i) :
    e.writes b = none := by
  by_contra hw
  have h := writes_writable he hw
  unfold Writable at h
  rw [hb, hclosed] at h
  simp at h

def barWord (basePa : Nat) : Nat := (0x04 >>> 1) <<< 1 ||| ((basePa &&& 0xFFFFFFFF) >>> 14) <<< 14

theorem bar_bytes {i : Nat} (hi : i < 4) :
    (nvmevPciInit basePa).virtDev (pciBaseAddress0 + i) = digit (barWord basePa) i :=
  match i, hi with
  | 0, _ | 1, _ | 2, _ | 3, _ => rfl

theorem barWord_low {j : Nat} (hj : j < 14) : (barWord basePa).testBit j = Nat.testBit 4 j := by
  unfold barWord
  rw [Nat.testBit_or, Nat.testBit_shiftLeft ((basePa &&& 0xFFFFFFFF) >>> 14), decide_eq_false (by omega),
    Bool.false_and, Bool.or_false]
  rfl

/-- The bits of the base address register below those of the mask. -/
theorem bar_kept (hev : ∀ e ∈ events, e.Accepted) {j : Nat} (hj : j < 14) :
    bit ((nvmevPciInit basePa).run events).virtDev (8 * pciBaseAddress0 + j) = Nat.testBit 4 j := by
  have hclosed : ∀ j < 14, ¬ Writable (8 * pciBaseAddress0 + j) := by decide
  have hsts : 8 * pciBaseAddress0 + j ≠ stsIsBit := by
    unfold pciBaseAddress0 stsIsBit pciStatus
    omega
  have hbyte : (8 * pciBaseAddress0 + j) / 8 = pciBaseAddress0 + j / 8 := by omega
  have hat : 8 * (j / 8) + j % 8 = j := by omega
  rw [closed_kept hev hsts (hclosed j hj), bit, hbyte, Nat.mul_add_mod, bar_bytes (by omega),
    testBit_digit, hat, decide_eq_true (Nat.mod_lt j (by decide)), Bool.true_and, barWord_low hj]

/-- The driver writes all ones to learn the size. -/
theorem bar_probe (hev : ∀ e ∈ events, e.Accepted) :
    nvmevPciRead (nvmevPciWrite ((nvmevPciInit basePa).run events) pciBaseAddress0 4 0xFFFFFFFF) 0
      pciBaseAddress0 4 = some 0xFFFFC004 := by
  have he : (ConfigEvent.write pciBaseAddress0 4 0xFFFFFFFF).Accepted :=
    ⟨by decide, by decide, by decide, by decide⟩
  have hhigh : ∀ j < 32, 14 ≤ j → (pciWriteMask pciBaseAddress0).getLsbD j = true ∧
      (0xFFFFFFFF : BitVec 32).getLsbD j = true ∧ Nat.testBit 0xFFFFC004 j = true := by decide
  have hlow : ∀ j < 14, (pciWriteMask pciBaseAddress0).getLsbD j = false ∧
      Nat.testBit 0xFFFFC004 j = Nat.testBit 4 j := by decide
  refine congrArg some (Nat.eq_of_testBit_eq fun j => ?_)
  rw [testBit_value]
  by_cases hj : j < 32
  · have hsts : 8 * pciBaseAddress0 + j ≠ stsIsBit := by
      unfold pciBaseAddress0 stsIsBit pciStatus
      omega
    have hstep := @bit_step ((nvmevPciInit basePa).run events) _ _ hsts he
    have hat : 8 * pciBaseAddress0 + j - 8 * pciBaseAddress0 = j := by omega
    unfold ConfigEvent.writes at hstep
    dsimp only at hstep
    rw [hat] at hstep
    rw [decide_eq_true hj, Bool.true_and]
    refine hstep.trans ?_
    by_cases h14 : 14 ≤ j
    · obtain ⟨hmask, hone, hval⟩ := hhigh j hj h14
      rw [if_pos ⟨by omega, by omega, hmask⟩, hone, hval]
      rfl
    · obtain ⟨hmask, hval⟩ := hlow j (by omega)
      rw [if_neg (fun h => by rw [hmask] at h; cases h.2.2), hval]
      exact bar_kept hev (by omega)
  · have hlt : (0xFFFFC004 : Nat) < 2^j :=
      Nat.lt_of_lt_of_le (by decide) (Nat.pow_le_pow_right (by decide) (Nat.le_of_not_lt hj))
    rw [decide_eq_false hj, Bool.false_and, Nat.testBit_lt_two_pow hlt]

theorem capabilities_found {mem : Nat → UInt8} (hptr : mem 0x34 = 0x40) (hpm : mem 0x40 = 0x01)
    (hpmNext : mem 0x41 = 0x50) (hmsix : mem 0x50 = 0x11) (hmsixNext : mem 0x51 = 0x60)
    (hexp : mem 0x60 = 0x10) (hexpNext : mem 0x61 = 0) (ttl : Nat) : capabilities mem (ttl + 4) 0x34 =
      [(offsPciPmCap, pciCapIdPm), (offsPciMsixCap, pciCapIdMsix), (offsPcieCap, pciCapIdExp)] := by
  have hat : ∀ ttl ptr n, (mem ptr).toNat = n + 1 →
      capabilities mem (ttl + 1) ptr = (n + 1, (mem (n + 1)).toNat) :: capabilities mem ttl (n + 2) := by
    intro ttl ptr n h
    rw [capabilities, h, if_neg (Nat.succ_ne_zero n)]
  have hend : capabilities mem (ttl + 1) 0x61 = [] := by
    rw [capabilities, hexpNext]
    rfl
  rw [hat _ 0x34 0x3f (by rw [hptr]; rfl), hat _ 0x41 0x4f (by rw [hpmNext]; rfl),
    hat _ 0x51 0x5f (by rw [hmsixNext]; rfl), hend, hpm, hmsix, hexp]
  rfl

/-- The identity of the device is fixed, a probe of its memory finds 16 KiB, and a host that leaves
the heads of its own capabilities alone finds power management, MSI-X and PCI Express. -/
theorem config_identity (hev : ∀ e ∈ events, e.Accepted) :
    (∀ target size, (∀ i, target ≤ i → i < target + size → openBits i = 0 ∧ i ≠ pciStatus) →
      nvmevPciRead ((nvmevPciInit basePa).run events) 0 target size =
        nvmevPciRead (nvmevPciInit basePa) 0 target size) ∧
    nvmevPciRead (nvmevPciWrite ((nvmevPciInit basePa).run events) pciBaseAddress0 4 0xFFFFFFFF) 0
      pciBaseAddress0 4 = some 0xFFFFC004 ∧
    ((∀ e ∈ events, ∀ b, b / 8 ∈ [0x40, 0x41, 0x60, 0x61] → e.writes b = none) → ∀ ttl, 4 ≤ ttl →
      capabilities ((nvmevPciInit basePa).run events).virtDev ttl 0x34 =
        [(offsPciPmCap, pciCapIdPm), (offsPciMsixCap, pciCapIdMsix), (offsPcieCap, pciCapIdExp)]) := by
  refine ⟨?_, bar_probe hev, ?_⟩
  · intro target size hclosed
    refine congrArg some (value_congr fun i h₁ h₂ => ?_)
    obtain ⟨hi, hsts⟩ := hclosed i h₁ h₂
    exact byte_kept hev hsts (fun e he b hb => closed_unwritten (hev e he) hi hb)
  · intro hown ttl httl
    have hfixed : ∀ i ∈ [0x34, 0x50, 0x51], ((nvmevPciInit basePa).run events).virtDev i =
        (nvmevPciInit basePa).virtDev i := by
      intro i hi
      have hclosed : ∀ i ∈ [0x34, 0x50, 0x51], openBits i = 0 ∧ i ≠ pciStatus := by decide
      exact byte_kept hev (hclosed i hi).2 (fun e he b hb => closed_unwritten (hev e he) (hclosed i hi).1 hb)
    have hhead : ∀ i ∈ [0x40, 0x41, 0x60, 0x61], ((nvmevPciInit basePa).run events).virtDev i =
        (nvmevPciInit basePa).virtDev i := by
      intro i hi
      have hne : ∀ i ∈ [0x40, 0x41, 0x60, 0x61], i ≠ pciStatus := by decide
      exact byte_kept hev (hne i hi) (fun e he b hb => hown e he b (hb ▸ hi))
    obtain ⟨k, rfl⟩ := Nat.exists_eq_add_of_le' httl
    exact capabilities_found (hfixed 0x34 (by decide)) (hhead 0x40 (by decide)) (hhead 0x41 (by decide))
      (hfixed 0x50 (by decide)) (hfixed 0x51 (by decide)) (hhead 0x60 (by decide)) (hhead 0x61 (by decide)) k

/-- The driver sets up the command register and the interrupt line. -/
def enumeration : List ConfigEvent := [.write pciCommand 2 0x406, .write pciInterruptLine 1 11]

theorem config_identity_enumerated :
    capabilities ((nvmevPciInit (2^36)).run enumeration).virtDev 48 0x34 =
      [(offsPciPmCap, pciCapIdPm), (offsPciMsixCap, pciCapIdMsix), (offsPcieCap, pciCapIdExp)] ∧
    nvmevPciRead ((nvmevPciInit (2^36)).run enumeration) 0 0 4 =
      nvmevPciRead (nvmevPciInit (2^36)) 0 0 4 := by
  have hev : ∀ e ∈ enumeration, e.Accepted := by
    intro e he
    rcases List.mem_cons.mp he with rfl | he
    · exact ⟨by decide, by decide, by decide, by decide⟩
    · rw [List.mem_singleton.mp he]
      exact ⟨by decide, by decide, by decide, by decide⟩
  have hhead : ∀ e ∈ enumeration, ∀ b, b / 8 ∈ [0x40, 0x41, 0x60, 0x61] → e.writes b = none := by
    intro e he b hb
    have hge : 0x40 ≤ b / 8 := (show ∀ i ∈ [0x40, 0x41, 0x60, 0x61], 0x40 ≤ i by decide) _ hb
    rcases List.mem_cons.mp he with rfl | he
    · exact if_neg (fun h => absurd h.2.1 (by unfold pciCommand; omega))
    · rw [List.mem_singleton.mp he]
      exact if_neg (fun h => absurd h.2.1 (by unfold pciInterruptLine; omega))
  obtain ⟨hread, _, hcaps⟩ := config_identity hev
  refine ⟨hcaps hhead 48 (by decide), hread 0 4 ?_⟩
  have hclosed : ∀ i < 4, openBits i = 0 ∧ i ≠ pciStatus := by decide
  exact fun i _ hi => hclosed i hi

end NVMeVirt
