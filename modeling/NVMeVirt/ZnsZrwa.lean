import NVMeVirt.ZnsRun

/-!
# The count of the random write areas

Finish, reset and the explicit flush give a zone's random write area back. A write that takes
the write pointer to the end of the zone goes through `__increase_write_ptr`, which does not:
its `ASSERT(0)` expands to nothing, and the reset of a full zone has nothing to give back.
-/

namespace NVMeVirt
set_option autoImplicit false
open Outcome

variable {clk : Nat → Nat} {spp : SsdParams} {ftl ftl' : ZnsFtl} {leak : Nat}

def HasZrwa (d : ZoneDescriptor) : Prop := Active d ∧ d.zrwav = true

instance (d : ZoneDescriptor) : Decidable (HasZrwa d) := inferInstanceAs (Decidable (_ ∧ _))

theorem holds_zrwa (d : ZoneDescriptor) : holds .zrwaZone d = decide (HasZrwa d) := by
  cases hs : d.state <;> simp [holds, HasZrwa, Active, Opened, hs]

def zrwaZones (ftl : ZnsFtl) : Nat := Census.tally ftl.zp.nrZones (fun z => HasZrwa (ftl.zoneDescs z))

theorem ZnsOk.zrwa_count (k : ZnsOk spp ftl leak) :
    (ftl.resInfos .zrwaZone).acquiredCnt = zrwaZones ftl + leak := by
  have h := k.ledger.count .zrwaZone
  simp only [holds_zrwa, leakOf, if_true] at h
  exact h

/-- While no write fills a zone with a random write area, the counter is the number of these
zones, and 0 once all zones are empty. The first such write breaks it. -/
theorem zrwa_count_exact {cfg : ZnsConfig} {old : ZnsParams} {size : Nat}
    (h : ZnsReachable clk cfg old size spp (fun ftl cmd => ¬ Leaks spp ftl cmd) ftl) :
    (ftl.resInfos .zrwaZone).acquiredCnt = zrwaZones ftl ∧
    ((∀ z < ftl.zp.nrZones, (ftl.zoneDescs z).state = .empty) →
      (ftl.resInfos .zrwaZone).acquiredCnt = 0) ∧
    ∀ garbage req ret out, req.cmd.length < 2^16 →
      znsProcNvmeIoCmd clk spp garbage ftl req ret = .ok out →
      ((out.ftl.resInfos .zrwaZone).acquiredCnt = zrwaZones out.ftl ↔ ¬ Leaks spp ftl req.cmd) := by
  have k := h.ok_zero (fun _ _ ha => ha)
  have hc := k.zrwa_count
  refine ⟨hc, fun hall => ?_, fun garbage req ret out hlen hproc => ?_⟩
  · rw [hc, zrwaZones, Nat.add_zero, Census.tally_eq_zero]
    intro z hz
    simp [HasZrwa, not_active_empty (hall z hz)]
  · have hk := znsProcNvmeIoCmd_kept k hlen hproc
    constructor
    · intro heq hl
      rw [(hk.leaked hl).zrwa_count] at heq
      omega
    · exact fun hl => (hk.ok hl).zrwa_count

/-- Two zones of 8 KiB with a random write area as large as a zone. -/
def zrwaConfig : ZnsConfig :=
  { wdZn540 with
    zoneSize := 8192, blkSize := 8192 / 32, maxZrwaZones := 2
    zrwafgSize := 4096, zrwaSize := 8192, zrwaBufferSize := 16384 }

/-- What an earlier call with the same configuration left on the stack. -/
def zrwaLeftover : ZnsParams := { zeroedParams with zrwafgSize := 4096, zrwaSize := 8192 }

def openZrwa : ZnsRequest := ⟨⟨.zoneMgmtSend, 0, 0, false, .open, false, 1, 0, 0⟩, 1, 0⟩
def fillZone : ZnsRequest := ⟨⟨.write, 0, 15, false, .other, false, 0, 0, 0⟩, 1, 0⟩
def resetAll : ZnsRequest := ⟨⟨.zoneMgmtSend, 0, 0, false, .reset, true, 0, 0, 0⟩, 1, 0⟩

theorem zrwa_count_opened : ∃ spp ftl,
    ZnsReachable (fun _ => 0) zrwaConfig zrwaLeftover (2^14) spp (fun ftl cmd => ¬ Leaks spp ftl cmd) ftl ∧
    (ftl.resInfos .zrwaZone).acquiredCnt = 1 ∧ zrwaZones ftl = 1 := by
  have hrun : check (fun (r : ZnsOutcome) => decide ((r.ftl.resInfos .zrwaZone).acquiredCnt = 1)) (do
      let ns ← znsInitNamespace zrwaConfig zrwaLeftover (2^14)
      znsProcNvmeIoCmd (fun _ => 0) ns.1 0 ns.2 openZrwa ⟨0, 0⟩) = true := by decide +kernel
  obtain ⟨out, hr, hp⟩ := exists_of_check hrun
  obtain ⟨⟨spp, ftl⟩, hinit, hproc⟩ := bind_eq_ok.mp hr
  rw [decide_eq_true_eq] at hp
  have h₀ : ZnsReachable (fun _ => 0) zrwaConfig zrwaLeftover (2^14) spp
      (fun ftl cmd => ¬ Leaks spp ftl cmd) ftl := .init hinit
  have h := h₀.command (by simp [Leaks, IsWrite, openZrwa]) (by decide) hproc
  exact ⟨spp, out.ftl, h, hp, (zrwa_count_exact h).1.symm.trans hp⟩

/-- Open with the option, fill the zone with one write, reset all zones: one area is still counted. -/
theorem zrwa_count_leaks : ∃ spp ftl,
    ZnsReachable (fun _ => 0) zrwaConfig zrwaLeftover (2^14) spp (fun _ _ => True) ftl ∧
    (∀ z < ftl.zp.nrZones, (ftl.zoneDescs z).state = .empty) ∧
    (ftl.resInfos .zrwaZone).acquiredCnt = 1 ∧ zrwaZones ftl = 0 := by
  have hrun : check (fun (r : ZnsOutcome) => decide ((r.ftl.resInfos .zrwaZone).acquiredCnt = 1) &&
      decide (∀ z < r.ftl.zp.nrZones, (r.ftl.zoneDescs z).state = .empty)) (do
      let ns ← znsInitNamespace zrwaConfig zrwaLeftover (2^14)
      let out ← znsProcNvmeIoCmd (fun _ => 0) ns.1 0 ns.2 openZrwa ⟨0, 0⟩
      let out ← znsProcNvmeIoCmd (fun _ => 0) ns.1 0 out.ftl fillZone ⟨0, 0⟩
      znsProcNvmeIoCmd (fun _ => 0) ns.1 0 out.ftl resetAll ⟨0, 0⟩) = true := by decide +kernel
  obtain ⟨out, hr, hp⟩ := exists_of_check hrun
  obtain ⟨⟨spp, ftl⟩, hinit, hr⟩ := bind_eq_ok.mp hr
  obtain ⟨out₁, hproc₁, hr⟩ := bind_eq_ok.mp hr
  obtain ⟨out₂, hproc₂, hproc₃⟩ := bind_eq_ok.mp hr
  simp only [Bool.and_eq_true, decide_eq_true_eq] at hp
  have h₀ : ZnsReachable (fun _ => 0) zrwaConfig zrwaLeftover (2^14) spp (fun _ _ => True) ftl := .init hinit
  have h₁ := h₀.command trivial (by decide) hproc₁
  have h₂ := h₁.command trivial (by decide) hproc₂
  have h₃ := h₂.command trivial (by decide) hproc₃
  refine ⟨spp, out.ftl, h₃, hp.2, hp.1, Census.tally_eq_zero.mpr (fun z hz => ?_)⟩
  simp [HasZrwa, not_active_empty (hp.2 z hz)]

end NVMeVirt
