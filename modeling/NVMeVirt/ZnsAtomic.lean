import NVMeVirt.ZnsRun

/-!
# What a failed zoned command leaves behind

A management send and a write to a random write area that fail leave everything as it was.
`__zns_write` takes its buffer space before its checks and keeps it when they fail.
-/

namespace NVMeVirt
set_option autoImplicit false
open Outcome

variable {clk : Nat → Nat} {spp : SsdParams} {ftl ftl' : ZnsFtl} {leak : Nat}

/-- Zones, counters and what remains in the buffers. -/
structure Unchanged (ftl ftl' : ZnsFtl) : Prop where
  zoneDescs : ftl'.zoneDescs = ftl.zoneDescs
  resInfos : ftl'.resInfos = ftl.resInfos
  writeBuffer : ftl'.writeBuffer.remaining = ftl.writeBuffer.remaining
  zoneWriteBuffer : ∀ z, (ftl'.zoneWriteBuffer z).remaining = (ftl.zoneWriteBuffer z).remaining
  zwraBuffer : ∀ z, (ftl'.zwraBuffer z).remaining = (ftl.zwraBuffer z).remaining

theorem Unchanged.refl : Unchanged ftl ftl := ⟨rfl, rfl, rfl, fun _ => rfl, fun _ => rfl⟩

theorem Unchanged.buffer (h : Unchanged ftl ftl') (ref : BufferRef) :
    (ftl'.buffer ref).remaining = (ftl.buffer ref).remaining := by
  cases ref with
  | shared => exact h.writeBuffer
  | zone z => exact h.zoneWriteBuffer z
  | zrwa z => exact h.zwraBuffer z

theorem ZnsFtl.buffer_setBuffer (ftl : ZnsFtl) (ref : BufferRef) (buf : Buffer) :
    (ftl.setBuffer ref buf).buffer ref = buf := by
  cases ref <;> simp [ZnsFtl.buffer, ZnsFtl.setBuffer]

/-- Space that was there and was taken is missing. -/
theorem charged_changed {cmd : ZnsCommand} (room : HasRoom spp ftl cmd) :
    ¬ Unchanged ftl (charged spp ftl cmd) := by
  intro h
  have hb := h.buffer (writeBufferOf ftl (zoneOf spp ftl cmd))
  unfold charged at hb
  rw [ZnsFtl.buffer_setBuffer] at hb
  have hpos : 0 < lbaToByte (nrLbasFromRwCmd cmd) := by
    unfold lbaToByte nrLbasFromRwCmd lbaSize lbaBits
    omega
  unfold HasRoom at room
  simp only at hb
  omega

theorem write_failed_iff {req : ZnsRequest} {ret : NvmevResult} {out : ZnsOutcome}
    (k : ZnsOk spp ftl leak) (h : znsWrite clk spp ftl req ret = .ok out) (hacc : out.accepted = true)
    (hfail : out.ret.status ≠ nvmeScSuccess) :
    Unchanged ftl out.ftl ↔ (ftl.zoneDescs (zoneOf spp ftl req.cmd)).zrwav = true := by
  unfold znsWrite at h
  rw [k.zoned.lpnToZone_eq] at h
  simp only at h
  split at h
  · cases h
  split at h
  · rename_i hv
    obtain ⟨hz, hcase⟩ := znsWritePlain_cases h
    rw [zoneOf, hv]
    cases hcase with
    | refused short => cases hacc
    | rejected room failed =>
      simp only [admission_rejected k hz failed]
      exact ⟨fun hu => absurd hu (charged_changed room), fun hc => absurd hc (by decide)⟩
    | written room passed pages => exact absurd rfl hfail
  · rename_i hv
    replace hv : (ftl.zoneDescs (zoneOf spp ftl req.cmd)).zrwav = true := Bool.eq_true_of_not_eq_false hv
    obtain ⟨hz, hcase⟩ := znsWriteZrwa_cases h
    cases hcase with
    | @rejected m status checks failed =>
      have hm : m = ftl := (admitZrwaWrite_admitted k hz hv checks).failed failed
      simp only [hm]
      exact ⟨fun _ => hv, fun _ => .refl⟩
    | refused checks amount short => cases hacc
    | written checks amount flushed => exact absurd rfl hfail

/-- A single-zone command that fails changes nothing, unless it is a write to a zone without a
random write area. -/
theorem failure_atomic_iff {cfg : ZnsConfig} {old : ZnsParams} {size garbage : Nat} {req : ZnsRequest}
    {ret : NvmevResult} {out : ZnsOutcome}
    (h : ZnsReachable clk cfg old size spp (fun _ _ => True) ftl)
    (hcmd : IsWrite req.cmd ∨ (req.cmd.opcode = .zoneMgmtSend ∧ req.cmd.selectAll = false))
    (hproc : znsProcNvmeIoCmd clk spp garbage ftl req ret = .ok out) (hacc : out.accepted = true)
    (hfail : out.ret.status ≠ nvmeScSuccess) :
    Unchanged ftl out.ftl ↔
      ¬ (IsWrite req.cmd ∧ (ftl.zoneDescs (zoneOf spp ftl req.cmd)).zrwav = false) := by
  obtain ⟨leak, k⟩ := h.ok
  unfold znsProcNvmeIoCmd at hproc
  rcases hcmd with hw | ⟨hop, hall⟩
  · have hwrite : znsWrite clk spp ftl req ret = .ok out := by
      rcases hw with hop | hop <;> rw [hop] at hproc <;> exact hproc
    rw [write_failed_iff k hwrite hacc hfail]
    simp [hw]
  · have hw : ¬ IsWrite req.cmd := by simp [IsWrite, hop]
    rw [hop] at hproc
    obtain ⟨r, hr, hproc⟩ := bind_eq_ok.mp hproc
    cases hproc
    rw [hall] at hr
    refine ⟨fun _ hc => hw hc.1, fun _ => ?_⟩
    rw [(zmgmtSend_acted k hr).failed hfail]
    exact .refl

/-- Closing an empty zone fails and changes nothing. -/
theorem failure_atomic_close : ∃ spp ftl out,
    ZnsReachable (fun _ => 0) wdZn540 zeroedParams (2^32) spp (fun _ _ => True) ftl ∧
    znsProcNvmeIoCmd (fun _ => 0) spp 0 ftl ⟨⟨.zoneMgmtSend, 0, 0, false, .close, false, 0, 0, 0⟩, 1, 0⟩
      ⟨0, 0⟩ = .ok out ∧
    out.ret.status = nvmeScZnsInvalidTransition ∧ Unchanged ftl out.ftl := by
  have hrun : check (fun (r : ZnsOutcome) => r.accepted &&
      decide (r.ret.status = nvmeScZnsInvalidTransition)) (do
      let (spp, ftl) ← znsInitNamespace wdZn540 zeroedParams (2^32)
      znsProcNvmeIoCmd (fun _ => 0) spp 0 ftl ⟨⟨.zoneMgmtSend, 0, 0, false, .close, false, 0, 0, 0⟩, 1, 0⟩
        ⟨0, 0⟩) = true := by decide +kernel
  obtain ⟨out, hr, hp⟩ := exists_of_check hrun
  obtain ⟨⟨spp, ftl⟩, hinit, hproc⟩ := bind_eq_ok.mp hr
  simp only [Bool.and_eq_true, decide_eq_true_eq] at hp
  have h : ZnsReachable (fun _ => 0) wdZn540 zeroedParams (2^32) spp
      (fun _ _ => True) ftl := .init hinit
  refine ⟨spp, ftl, out, h, hproc, hp.2, ?_⟩
  exact (failure_atomic_iff h (.inr ⟨rfl, rfl⟩) hproc hp.1 (by rw [hp.2]; decide)).mpr (by simp [IsWrite])

/-- A write that misses the write pointer is rejected, and 4 KiB of the zone's buffer are gone. -/
theorem rejected_write_keeps_buffer : ∃ spp ftl out,
    ZnsReachable (fun _ => 0) wdZn540 zeroedParams (2^32) spp (fun _ _ => True) ftl ∧
    znsProcNvmeIoCmd (fun _ => 0) spp 0 ftl ⟨⟨.write, 8, 7, false, .other, false, 0, 0, 0⟩, 1, 0⟩
      ⟨0, 0⟩ = .ok out ∧
    out.accepted = true ∧ out.ret.status = nvmeScZnsInvalidWrite ∧
    (ftl.zoneWriteBuffer 0).remaining = 983040 ∧ (out.ftl.zoneWriteBuffer 0).remaining = 978944 ∧
    ¬ Unchanged ftl out.ftl := by
  have hrun : check (fun (r : ZnsFtl × ZnsOutcome) => r.2.accepted &&
      decide (r.2.ret.status = nvmeScZnsInvalidWrite) &&
      decide ((r.1.zoneWriteBuffer 0).remaining = 983040) &&
      decide ((r.2.ftl.zoneWriteBuffer 0).remaining = 978944)) (do
      let (spp, ftl) ← znsInitNamespace wdZn540 zeroedParams (2^32)
      let out ← znsProcNvmeIoCmd (fun _ => 0) spp 0 ftl ⟨⟨.write, 8, 7, false, .other, false, 0, 0, 0⟩, 1, 0⟩
        ⟨0, 0⟩
      return (ftl, out)) = true := by decide +kernel
  obtain ⟨r, hr, hp⟩ := exists_of_check hrun
  obtain ⟨⟨spp, ftl⟩, hinit, hr⟩ := bind_eq_ok.mp hr
  obtain ⟨out, hproc, hr⟩ := bind_eq_ok.mp hr
  cases hr
  simp only [Bool.and_eq_true, decide_eq_true_eq] at hp
  obtain ⟨⟨⟨h₁, h₂⟩, h₃⟩, h₄⟩ := hp
  refine ⟨spp, ftl, out, .init hinit, hproc, h₁, h₂, h₃, h₄, fun hu => ?_⟩
  have hz := hu.zoneWriteBuffer 0
  rw [h₃, h₄] at hz
  exact absurd hz (by decide)

end NVMeVirt
