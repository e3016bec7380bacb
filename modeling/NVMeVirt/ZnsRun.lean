import NVMeVirt.ZnsZrwaWrites

/-!
# Runs of a zoned namespace

From `zns_init_namespace`, through any sequence of commands, with the releases of the write
buffers in between: counters, states and write pointers agree in every state reached.
-/

namespace NVMeVirt
set_option autoImplicit false
open Outcome

variable {clk : Nat → Nat} {spp : SsdParams} {ftl ftl' : ZnsFtl} {leak : Nat}

/-- The page sizes that `ssd_init_params` fixes. -/
structure Paged (spp : SsdParams) : Prop where
  secsz : spp.secsz = lbaSize
  secsPerPg : spp.secsPerPg = 8
  pgsz : spp.pgsz = 4096
  oneshot : 0 < spp.pgsPerOneshotpg

/-- What `ssd_init_params` has checked, and the fields it copies from the configuration. -/
structure Checked (cfg : SsdConfig) (n : Nat) (spp : SsdParams) : Prop where
  paged : Paged spp
  flash_pos : 0 < spp.pgsPerFlashpg
  nchs : spp.nchs = cfg.nandChannels / n
  luns : spp.ttLuns = cfg.lunsPerNandCh * spp.nchs
  writeUnitSize : spp.writeUnitSize = cfg.writeUnitSize
  maxChXferSize : spp.maxChXferSize = cfg.maxChXferSize
  chBandwidth : spp.chBandwidth = cfg.nandChannelBandwidth
  pcieBandwidth : spp.pcieBandwidth = cfg.pcieBandwidth

theorem ssdInitParams_checked {cfg : SsdConfig} {capacity n : Nat}
    (h : ssdInitParams cfg capacity n = .ok spp) : Checked cfg n spp := by
  obtain ⟨_, p⟩ := ssdInitParams_produced h
  exact ⟨⟨p.secsz, p.secsPerPg, p.pgsz, p.oneshot_pos⟩, p.flash_pos, p.nchs, p.luns ▸ p.ttLuns,
    p.writeUnitSize, p.maxChXferSize, p.chBandwidth, p.pcieBandwidth⟩

theorem znsInitParams_zoned {cfg : ZnsConfig} {old zp : ZnsParams} {capacity : Nat} (hp : Paged spp)
    (h : znsInitParams cfg spp old capacity = .ok zp) :
    Zoned spp zp ∧ zp.nrZones * zp.zoneSize ≤ capacity := by
  unfold znsInitParams at h
  obtain ⟨hpos, h⟩ := divisor_bind_ok.mp h
  obtain ⟨hsize, h⟩ := divisor_bind_ok.mp h
  obtain ⟨_, h⟩ := nvmevAssert_bind_ok.mp h
  obtain ⟨hpage, h⟩ := nvmevAssert_bind_ok.mp h
  cases h
  rw [hp.pgsz] at hpage
  refine ⟨⟨hp.secsz, hp.secsPerPg, hp.pgsz, hpage, hsize, Nat.mod_lt _ (by decide)⟩, ?_⟩
  calc u32 (capacity / cfg.zoneSize) * u32 cfg.zoneSize
      ≤ capacity / cfg.zoneSize * cfg.zoneSize := Nat.mul_le_mul (Nat.mod_le _ _) (Nat.mod_le _ _)
    _ ≤ capacity := Nat.div_mul_le_self _ _

theorem Zoned.addressable {zp : ZnsParams} (g : Zoned spp zp) {size : Nat}
    (hfit : zp.nrZones * zp.zoneSize ≤ size) (hsmall : size / lbaSize < 2^32) : Addressable spp zp := by
  refine ⟨g, ?_⟩
  calc zp.nrZones * lbasPerZone zp ≤ zp.nrZones * zp.zoneSize / lbaSize := Nat.mul_div_le_mul_div_assoc _ _ _
    _ ≤ size / lbaSize := Nat.div_le_div_right hfit
    _ < 2^32 := hsmall

theorem znsInitFtl_ok {zp : ZnsParams} (g : Zoned spp zp) : ZnsOk spp (znsInitFtl spp zp) 0 := by
  refine ⟨g, fun z _ => ⟨fun _ => rfl, by simp [znsInitFtl, initDescriptor]⟩, fun _ => rfl,
    fun _ => Nat.zero_le _, fun t => ?_⟩
  have hidle : ∀ z, holds t ((znsInitFtl spp zp).zoneDescs z) = false :=
    fun z => idle_holds (not_active_empty rfl) t
  have hzero : Census.tally zp.nrZones (fun z => holds t ((znsInitFtl spp zp).zoneDescs z)) = 0 :=
    Census.tally_eq_zero.mpr (fun z _ => hidle z)
  rw [show (znsInitFtl spp zp).zp = zp from rfl, hzero]
  simp [leakOf, znsInitFtl]

theorem znsInitFtl_pointers {zp : ZnsParams} (g : Addressable spp zp) :
    PointersOk spp (znsInitFtl spp zp) := by
  refine ⟨g, fun z hz => ?_, fun _ _ => rfl, fun z _ => ?_⟩
  · have := g.zone_end_le hz
    exact u64_eq (show z * lbasPerZone zp < 2^64 by omega)
  · exact ⟨fun _ _ => rfl, fun _ => Nat.le_refl _, fun _ => Nat.le_add_right _ _,
      fun _ h => absurd h (not_active_empty rfl)⟩

theorem znsInitNamespace_ok {cfg : ZnsConfig} {old : ZnsParams} {size : Nat}
    (h : znsInitNamespace cfg old size = .ok (spp, ftl)) :
    Paged spp ∧ ZnsOk spp ftl 0 ∧ (size / lbaSize < 2^32 → PointersOk spp ftl) ∧
      ∀ z, (ftl.zoneDescs z).zrwav = false := by
  unfold znsInitNamespace at h
  obtain ⟨spp', hspp, h⟩ := bind_eq_ok.mp h
  obtain ⟨zp, hzp, h⟩ := bind_eq_ok.mp h
  cases h
  have hpaged := (ssdInitParams_checked hspp).paged
  obtain ⟨hzoned, hfit⟩ := znsInitParams_zoned hpaged hzp
  exact ⟨hpaged, znsInitFtl_ok hzoned, fun hs => znsInitFtl_pointers (hzoned.addressable hfit hs),
    fun _ => rfl⟩

def IsWrite (cmd : ZnsCommand) : Prop := cmd.opcode = .write ∨ cmd.opcode = .zoneAppend

/-- The command asks for a random write area. -/
def AsksZrwa (cmd : ZnsCommand) : Prop :=
  cmd.opcode = .zoneMgmtSend ∧ cmd.zsa = .open ∧ cmd.zsaso ≠ 0

/-- The command is a write that fills a zone with a random write area. -/
def Leaks (spp : SsdParams) (ftl : ZnsFtl) (cmd : ZnsCommand) : Prop :=
  IsWrite cmd ∧ (ftl.zoneDescs (zoneOf spp ftl cmd)).zrwav = true ∧ FillsZrwa spp ftl cmd

structure Kept (spp : SsdParams) (ftl ftl' : ZnsFtl) (cmd : ZnsCommand) (leak : Nat) : Prop where
  ok : ¬ Leaks spp ftl cmd → ZnsOk spp ftl' leak
  leaked : Leaks spp ftl cmd → ZnsOk spp ftl' (leak + 1)
  pointers : PointersOk spp ftl → PointersOk spp ftl'
  zrwav : ¬ AsksZrwa cmd → (∀ z, (ftl.zoneDescs z).zrwav = false) → ∀ z, (ftl'.zoneDescs z).zrwav = false
  zp : ftl'.zp = ftl.zp

theorem Kept.idle {cmd : ZnsCommand} (k : ZnsOk spp ftl leak) (hl : ¬ Leaks spp ftl cmd)
    (hp : ftl'.zp = ftl.zp) (hr : ftl'.resInfos = ftl.resInfos) (hd : ftl'.zoneDescs = ftl.zoneDescs) :
    Kept spp ftl ftl' cmd leak :=
  ⟨fun _ => k.congr hp hr hd, fun h => absurd h hl, fun p => p.congr hp hd, fun _ h => by rwa [hd], hp⟩

theorem Kept.some {cmd : ZnsCommand} (h : Kept spp ftl ftl' cmd leak) : ∃ leak, ZnsOk spp ftl' leak := by
  by_cases hl : Leaks spp ftl cmd
  · exact ⟨leak + 1, h.leaked hl⟩
  · exact ⟨leak, h.ok hl⟩

theorem ZrwaKept.pointers {zid : Nat} (h : ZrwaKept spp ftl ftl' zid leak) (hz : zid < ftl.zp.nrZones)
    (p : PointersOk spp ftl) : PointersOk spp ftl' := by
  refine p.set hz h.zp (d := ftl'.zoneDescs zid) ?_ h.addresses.1 h.addresses.2 (.of_zrwa h.zone)
  funext z
  by_cases hne : z = zid
  · rw [hne, Function.update_self]
  · rw [Function.update_of_ne hne, h.others z hne]

theorem znsWrite_kept {req : ZnsRequest} {ret : NvmevResult} {out : ZnsOutcome} (k : ZnsOk spp ftl leak)
    (hw : IsWrite req.cmd) (hlen : req.cmd.length < 2^16)
    (h : znsWrite clk spp ftl req ret = .ok out) : Kept spp ftl out.ftl req.cmd leak := by
  unfold znsWrite at h
  rw [k.zoned.lpnToZone_eq] at h
  simp only at h
  split at h
  · cases h
  split at h
  · rename_i hv
    have hl : ¬ Leaks spp ftl req.cmd := by
      intro hl
      have hz := hl.2.1
      rw [zoneOf, hv] at hz
      exact absurd hz (by decide)
    obtain ⟨hz, hcase⟩ := znsWritePlain_cases h
    cases hcase with
    | refused short => exact .idle k hl rfl rfl rfl
    | rejected room failed =>
      simp only [admission_rejected k hz failed]
      exact .idle k hl (charged_zp _) (ZnsFtl.setBuffer_resInfos _ _ _) (charged_zoneDescs _)
    | written room passed pages =>
      have w := zoneWritten_of k hlen hz hv passed
      refine ⟨fun _ => (w _).ok, fun h => absurd h hl, fun p => (w _).pointers p hlen hz hv, ?_, (w _).zp⟩
      intro _ hall z
      by_cases hne : z = zoneOf spp ftl req.cmd
      · obtain ⟨s, _, hd⟩ := (w _).zone
        rw [hne, hd]
        exact hv
      · rw [(w _).others z hne]
        exact hall z
  · rename_i hv
    replace hv : (ftl.zoneDescs (zoneOf spp ftl req.cmd)).zrwav = true := Bool.eq_true_of_not_eq_false hv
    obtain ⟨hz, _⟩ := znsWriteZrwa_cases h
    obtain ⟨h₁, h₂⟩ := znsWriteZrwa_kept k hv h
    refine ⟨fun hl => (h₂ (fun hf => hl ⟨hw, hv, hf⟩)).ok, fun hl => (h₁ hl.2.2).ok, fun p => ?_, ?_, ?_⟩
    · by_cases hf : FillsZrwa spp ftl req.cmd
      · exact (h₁ hf).pointers hz p
      · exact (h₂ hf).pointers hz p
    · intro _ hall
      rw [hall] at hv
      exact absurd hv (by decide)
    · by_cases hf : FillsZrwa spp ftl req.cmd
      · exact (h₁ hf).zp
      · exact (h₂ hf).zp

theorem znsRead_idle {req : ZnsRequest} {out : ZnsOutcome} (h : znsRead clk spp ftl req = .ok out) :
    out.ftl.zp = ftl.zp ∧ out.ftl.resInfos = ftl.resInfos ∧ out.ftl.zoneDescs = ftl.zoneDescs ∧
      out.ftl.zoneWriteBuffer = ftl.zoneWriteBuffer ∧ out.calls = [] := by
  unfold znsRead at h
  simp only [pure_eq_ok] at h
  split at h
  · cases h
  obtain ⟨_, _, h⟩ := bind_eq_ok.mp h
  obtain ⟨_, _, h⟩ := bind_eq_ok.mp h
  cases h
  exact ⟨rfl, rfl, rfl, rfl, rfl⟩

theorem znsProcNvmeIoCmd_kept {garbage : Nat} {req : ZnsRequest} {ret : NvmevResult} {out : ZnsOutcome}
    (k : ZnsOk spp ftl leak) (hlen : req.cmd.length < 2^16)
    (h : znsProcNvmeIoCmd clk spp garbage ftl req ret = .ok out) :
    Kept spp ftl out.ftl req.cmd leak := by
  have hno : ¬ IsWrite req.cmd → ¬ Leaks spp ftl req.cmd := fun hw hl => hw hl.1
  unfold znsProcNvmeIoCmd at h
  cases hop : req.cmd.opcode with
  | write =>
    rw [hop] at h
    exact znsWrite_kept k (.inl hop) hlen h
  | zoneAppend =>
    rw [hop] at h
    exact znsWrite_kept k (.inr hop) hlen h
  | read =>
    rw [hop] at h
    obtain ⟨h₁, h₂, h₃, _⟩ := znsRead_idle h
    exact .idle k (hno (by simp [IsWrite, hop])) h₁ h₂ h₃
  | flush =>
    rw [hop] at h
    cases h
    exact .idle k (hno (by simp [IsWrite, hop])) rfl rfl rfl
  | zoneMgmtSend =>
    rw [hop] at h
    obtain ⟨r, hr, h⟩ := bind_eq_ok.mp h
    cases h
    have hs := znsZmgmtSend_sent k hr
    exact ⟨fun _ => hs.ok, fun hl => absurd hl (hno (by simp [IsWrite, hop])), hs.pointers,
      fun ha hall z => hs.zrwav (fun hg => ha ⟨hop, hg⟩) z (hall z), hs.zp⟩
  | zoneMgmtRecv =>
    rw [hop] at h
    cases h
    exact .idle k (hno (by simp [IsWrite, hop])) rfl rfl rfl
  | other =>
    rw [hop] at h
    cases h
    exact .idle k (hno (by simp [IsWrite, hop])) rfl rfl rfl

/-- The states that commands with `Allowed` reach. A worker gives buffer space back at any time. -/
inductive ZnsReachable (clk : Nat → Nat) (cfg : ZnsConfig) (old : ZnsParams) (size : Nat)
    (spp : SsdParams) (Allowed : ZnsFtl → ZnsCommand → Prop) : ZnsFtl → Prop
  | init {ftl : ZnsFtl} (h : znsInitNamespace cfg old size = .ok (spp, ftl)) :
      ZnsReachable clk cfg old size spp Allowed ftl
  | command {ftl : ZnsFtl} {garbage : Nat} {req : ZnsRequest} {ret : NvmevResult} {out : ZnsOutcome}
      (before : ZnsReachable clk cfg old size spp Allowed ftl) (allowed : Allowed ftl req.cmd)
      (length : req.cmd.length < 2^16)
      (h : znsProcNvmeIoCmd clk spp garbage ftl req ret = .ok out) :
      ZnsReachable clk cfg old size spp Allowed out.ftl
  | release {ftl : ZnsFtl} (before : ZnsReachable clk cfg old size spp Allowed ftl)
      (ref : BufferRef) (n : Nat) :
      ZnsReachable clk cfg old size spp Allowed (ftl.setBuffer ref (bufferRelease (ftl.buffer ref) n))

namespace ZnsReachable

variable {cfg : ZnsConfig} {old : ZnsParams} {size : Nat} {Allowed : ZnsFtl → ZnsCommand → Prop}

/-- Counters and zones agree in every run, up to the areas that filled zones kept. -/
theorem ok (h : ZnsReachable clk cfg old size spp Allowed ftl) : ∃ leak, ZnsOk spp ftl leak := by
  induction h with
  | init h => exact ⟨0, (znsInitNamespace_ok h).2.1⟩
  | command before allowed length h ih =>
    obtain ⟨leak, k⟩ := ih
    exact (znsProcNvmeIoCmd_kept k length h).some
  | release before ref n ih =>
    obtain ⟨leak, k⟩ := ih
    exact ⟨leak, k.setBuffer ref _⟩

theorem ok_zero (h : ZnsReachable clk cfg old size spp Allowed ftl)
    (hleak : ∀ ftl cmd, Allowed ftl cmd → ¬ Leaks spp ftl cmd) : ZnsOk spp ftl 0 := by
  induction h with
  | init h => exact (znsInitNamespace_ok h).2.1
  | command before allowed length h ih =>
    exact (znsProcNvmeIoCmd_kept ih length h).ok (hleak _ _ allowed)
  | release before ref n ih => exact ih.setBuffer ref _

theorem pointers (h : ZnsReachable clk cfg old size spp Allowed ftl) (hsmall : size / lbaSize < 2^32) :
    PointersOk spp ftl := by
  induction h with
  | init h => exact (znsInitNamespace_ok h).2.2.1 hsmall
  | command before allowed length h ih =>
    obtain ⟨leak, k⟩ := before.ok
    exact (znsProcNvmeIoCmd_kept k length h).pointers ih
  | release before ref n ih => exact ih.congr (by simp) (by simp)

theorem plain (h : ZnsReachable clk cfg old size spp Allowed ftl)
    (hask : ∀ ftl cmd, Allowed ftl cmd → ¬ AsksZrwa cmd) : ∀ z, (ftl.zoneDescs z).zrwav = false := by
  induction h with
  | init h => exact (znsInitNamespace_ok h).2.2.2
  | command before allowed length h ih =>
    obtain ⟨leak, k⟩ := before.ok
    exact (znsProcNvmeIoCmd_kept k length h).zrwav (hask _ _ allowed) ih
  | release before ref n ih =>
    rw [ZnsFtl.setBuffer_zoneDescs]
    exact ih

end ZnsReachable

instance (d : ZoneDescriptor) : Decidable (Opened d) := inferInstanceAs (Decidable (_ ∨ _))
instance (d : ZoneDescriptor) : Decidable (Active d) := inferInstanceAs (Decidable (_ ∨ _))

theorem holds_open (d : ZoneDescriptor) : holds .openZone d = decide (Opened d) := by
  cases hs : d.state <;> simp [holds, Opened, hs]

theorem holds_active (d : ZoneDescriptor) : holds .activeZone d = decide (Active d) := by
  cases hs : d.state <;> simp [holds, Active, Opened, hs]

/-- Counters, states and write pointers of every reachable state, without the random write area. -/
theorem zones_consistent {cfg : ZnsConfig} {old : ZnsParams} {size : Nat}
    (hsmall : size / lbaSize < 2^32)
    (h : ZnsReachable clk cfg old size spp (fun _ cmd => ¬ AsksZrwa cmd) ftl) :
    (ftl.resInfos .openZone).acquiredCnt =
      Census.tally ftl.zp.nrZones (fun z => Opened (ftl.zoneDescs z)) ∧
    (ftl.resInfos .activeZone).acquiredCnt =
      Census.tally ftl.zp.nrZones (fun z => Active (ftl.zoneDescs z)) ∧
    (ftl.resInfos .openZone).acquiredCnt ≤ (ftl.resInfos .openZone).totalCnt ∧
    (ftl.resInfos .activeZone).acquiredCnt ≤ (ftl.resInfos .activeZone).totalCnt ∧
    ∀ z < ftl.zp.nrZones,
      ((ftl.zoneDescs z).state = .empty → (ftl.zoneDescs z).wp = (ftl.zoneDescs z).zslba) ∧
      (Active (ftl.zoneDescs z) → (ftl.zoneDescs z).zslba ≤ (ftl.zoneDescs z).wp ∧
        (ftl.zoneDescs z).wp < (ftl.zoneDescs z).zslba + (ftl.zoneDescs z).zoneCapacity) ∧
      (ftl.zoneDescs z).zslba ≤ (ftl.zoneDescs z).wp ∧
      (ftl.zoneDescs z).wp ≤ (ftl.zoneDescs z).zslba + (ftl.zoneDescs z).zoneCapacity := by
  obtain ⟨leak, k⟩ := h.ok
  have p := h.pointers hsmall
  have hplain := h.plain (fun _ _ ha => ha)
  have hopen := k.ledger.count .openZone
  have hactive := k.ledger.count .activeZone
  simp only [holds_open, holds_active, leakOf, reduceCtorEq, if_false, Nat.add_zero] at hopen hactive
  refine ⟨hopen, hactive, ?_, ?_, fun z hz => ?_⟩
  · rw [k.ledger.total]
    exact k.ledger.bound _
  · rw [k.ledger.total]
    exact k.ledger.bound _
  · have hp := p.pointers z hz
    exact ⟨hp.start (hplain z), fun ha => ⟨hp.lower (hplain z), hp.below (hplain z) ha⟩,
      hp.lower (hplain z), hp.upper (hplain z)⟩

theorem zones_consistent_opened : ∃ spp ftl,
    ZnsReachable (fun _ => 0) wdZn540 zeroedParams (2^32) spp
      (fun _ cmd => ¬ AsksZrwa cmd) ftl ∧
    (ftl.zoneDescs 1).state = .openedExpl ∧
    (ftl.resInfos .openZone).acquiredCnt =
      Census.tally ftl.zp.nrZones (fun z => Opened (ftl.zoneDescs z)) := by
  have h₀ : ZnsReachable (fun _ => 0) wdZn540 zeroedParams (2^32) _
      (fun _ cmd => ¬ AsksZrwa cmd) _ := .init rfl
  have h₁ := h₀.command (by simp [AsksZrwa]) (by decide)
    (show znsProcNvmeIoCmd (fun _ => 0) _ 0 _ ⟨⟨.zoneMgmtSend, 2^22, 0, false, .open, false, 0, 0, 0⟩, 1, 0⟩
      ⟨0, 0⟩ = .ok _ from rfl)
  exact ⟨_, _, h₁, rfl, (zones_consistent (by decide) h₁).1⟩

end NVMeVirt
