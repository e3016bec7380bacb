import NVMeVirt.ZnsRun

/-!
# Traps of a zoned namespace without random write areas

The shipped zoned builds leave every ZRWA size at 0. The count of the areas is bounded by the
zones all the same, so that an open may still grant one. Its commands then divide by 0 in
the zone whose write pointer is 0, where `wp + 0 - 1` wraps round.
-/

namespace NVMeVirt
set_option autoImplicit false
open Outcome

variable {clk : Nat → Nat} {spp : SsdParams} {ftl ftl' : ZnsFtl} {zid : Nat}

def Fault.Trap (e : Fault) : Prop := e = .divideError ∨ e = .assertion

def Traps {α : Type} (x : Except Fault α) : Prop := ∃ e : Fault, x = .error e ∧ e.Trap

def Fault.Harmless (e : Fault) : Prop := ¬ e.Trap

theorem badAddress_harmless : Fault.badAddress.Harmless := by simp [Fault.Harmless, Fault.Trap]

theorem outOfFuel_harmless : Fault.outOfFuel.Harmless := by simp [Fault.Harmless, Fault.Trap]

theorem not_traps {α : Type} {x : Except Fault α} {P : α → Prop} (h : Sat x P Fault.Harmless) :
    ¬ Traps x := by
  rintro ⟨e, he, ht⟩
  exact h.of_error he ht

/-- What the handlers divide by, `lbas_per_zrwafg` apart. -/
structure Divisors (spp : SsdParams) (zp : ZnsParams) : Prop where
  secsz : 0 < spp.secsz
  secsPerPg : 0 < spp.secsPerPg
  pgsz : 0 < spp.pgsz
  zoneLbas : 0 < zp.zoneSize / spp.secsz
  zonePages : 0 < zp.zoneSize / spp.pgsz
  diesPerZone : 0 < zp.diesPerZone
  writeUnitSize : 0 < spp.writeUnitSize
  pgsPerOneshotpg : 0 < spp.pgsPerOneshotpg
  pgsPerFlashpg : 0 < spp.pgsPerFlashpg
  ttLuns : 0 < spp.ttLuns
  nchs : 0 < spp.nchs

/-- The values of a build that the divisors and the credits come from. -/
structure ZnsConfig.Sound (cfg : ZnsConfig) : Prop where
  channels : 0 < cfg.nandChannels
  luns : 0 < cfg.lunsPerNandCh
  dies : 0 < u32 cfg.diesPerZone
  writeUnitSize : 0 < cfg.writeUnitSize
  xfer : 0 < cfg.maxChXferSize
  chCredits : 0 < bandwidthToMaxCredits cfg.nandChannelBandwidth
  pcieCredits : 0 < bandwidthToMaxCredits cfg.pcieBandwidth

theorem znsConfigs_sound {cfg : ZnsConfig} (h : cfg ∈ znsConfigs) : cfg.Sound := by
  rcases List.mem_cons.mp h with rfl | h
  · constructor <;> decide
  · obtain rfl := List.mem_singleton.mp h
    constructor <;> decide

/-- A sound build divides by nothing that is zero, and its links have credits. -/
theorem znsInitNamespace_sound {cfg : ZnsConfig} {old : ZnsParams} {size : Nat} (hs : cfg.Sound)
    (h : znsInitNamespace cfg old size = .ok (spp, ftl)) :
    Divisors spp ftl.zp ∧ Rated spp ∧ ftl.ssd.PerfOk := by
  unfold znsInitNamespace at h
  obtain ⟨spp', hspp, h⟩ := bind_eq_ok.mp h
  obtain ⟨zp, hzp, h⟩ := bind_eq_ok.mp h
  cases h
  have c := ssdInitParams_checked hspp
  obtain ⟨g, -⟩ := znsInitParams_zoned c.paged hzp
  have hnchs : 0 < spp.nchs := by
    rw [c.nchs, Nat.div_one]
    exact hs.channels
  have htt : 0 < spp.ttLuns := by
    rw [c.luns]
    exact Nat.mul_pos hs.luns hnchs
  have hrated : Rated spp :=
    ⟨c.maxChXferSize ▸ hs.xfer, c.chBandwidth ▸ hs.chCredits, c.pcieBandwidth ▸ hs.pcieCredits⟩
  have hpages := g.lbas_eq
  have hlbas := g.lbas_pos
  unfold lbasPerZone at hlbas hpages
  refine ⟨?_, hrated, ssdInit_perfOk hrated⟩
  exact {
    secsz := by
      rw [g.secsz]
      decide
    secsPerPg := by
      rw [g.secsPerPg]
      decide
    pgsz := by
      rw [g.pgsz]
      decide
    zoneLbas := by
      rw [g.secsz]
      exact hlbas
    zonePages := by
      rw [g.pgsz]
      change 0 < zp.zoneSize / 4096
      omega
    diesPerZone := by
      obtain ⟨_, hzp⟩ := divisor_bind_ok.mp hzp
      obtain ⟨_, hzp⟩ := divisor_bind_ok.mp hzp
      obtain ⟨_, hzp⟩ := nvmevAssert_bind_ok.mp hzp
      obtain ⟨_, hzp⟩ := nvmevAssert_bind_ok.mp hzp
      cases hzp
      exact hs.dies
    writeUnitSize := c.writeUnitSize ▸ hs.writeUnitSize
    pgsPerOneshotpg := c.paged.oneshot
    pgsPerFlashpg := c.flash_pos
    ttLuns := htt
    nchs := hnchs }

variable (clk spp) in
theorem ssdAdvanceNand_harmless {ssd : Ssd} (h : ssd.PerfOk) (hmax : 0 < spp.maxChXferSize)
    (ncmd : NandCmd) :
    Sat (ssdAdvanceNand clk spp ssd ncmd) (fun r => r.1.PerfOk) Fault.Harmless := by
  by_cases hdie : ncmd.ppa.ch < spp.nchs ∧ ncmd.ppa.lun < spp.lunsPerCh
  · obtain ⟨r, hr, ht⟩ := ssdAdvanceNand_returns clk spp h hmax ncmd hdie.1 hdie.2
    rw [hr]
    exact ht.2
  · obtain ⟨⟨ssd₀, t₀⟩, h₀, hk₀⟩ : ∃ p : Ssd × Nat,
        (if ncmd.stime = 0 then ({ ssd with ticks := ssd.ticks + 1 }, clk ssd.ticks)
          else (ssd, ncmd.stime)) = p ∧ p.1.PerfOk := by
      split
      · exact ⟨_, rfl, h.ch, h.pcie⟩
      · exact ⟨_, rfl, h⟩
    unfold ssdAdvanceNand
    rw [h₀]
    dsimp only
    split
    · exact hk₀
    · exact badAddress_harmless

variable (clk) in
theorem ssdAdvancePcie_harmless {ssd : Ssd} (h : ssd.PerfOk) (t len : Nat) :
    Sat (ssdAdvancePcie clk ssd t len) (fun r => r.1.PerfOk) Fault.Harmless := by
  obtain ⟨r, hr, ht⟩ := ssdAdvancePcie_returns clk h t len
  rw [hr]
  exact ht.2

theorem programOneshot_harmless {ppa : Ppa} {stime sqId bytes : Nat} {ref : BufferRef} {p : ProgramState}
    (h : p.ssd.PerfOk) (hmax : 0 < spp.maxChXferSize) :
    Sat (programOneshot clk spp ppa stime sqId ref bytes p) (fun p' => p'.ssd.PerfOk) Fault.Harmless := by
  unfold programOneshot
  refine (ssdAdvanceNand_harmless clk spp h hmax _).bind ?_
  intro r hr
  exact hr

theorem writePages_harmless (hmax : 0 < spp.maxChXferSize) {zp : ZnsParams}
    {zoneElpn elpn stime sqId : Nat} {ref : BufferRef} (fuel lpn : Nat) {p : ProgramState}
    (h : p.ssd.PerfOk) :
    Sat (writePages clk spp zp zoneElpn elpn stime sqId ref fuel lpn p) (fun p' => p'.ssd.PerfOk)
      Fault.Harmless := by
  induction fuel generalizing lpn p with
  | zero =>
    unfold writePages
    split
    · exact h
    · exact outOfFuel_harmless
  | succ fuel ih =>
    unfold writePages
    split
    · exact h
    · dsimp only
      split
      · refine (programOneshot_harmless h hmax).bind ?_
        intro p' hp'
        exact ih _ hp'
      · exact ih _ h

theorem readPages_harmless (hmax : 0 < spp.maxChXferSize) {zp : ZnsParams} {elpn stime : Nat}
    (fuel lpn : Nat) {p : Ssd × Nat} (h : p.1.PerfOk) :
    Sat (readPages clk spp zp elpn stime fuel lpn p) (fun p' => p'.1.PerfOk) Fault.Harmless := by
  induction fuel generalizing lpn p with
  | zero =>
    unfold readPages
    split
    · exact h
    · exact outOfFuel_harmless
  | succ fuel ih =>
    unfold readPages
    split
    · exact h
    · refine (ssdAdvanceNand_harmless clk spp h hmax _).bind ?_
      intro r hr
      exact ih _ hr

theorem increaseWritePtr_ssd (zid n : Nat) : (increaseWritePtr spp ftl zid n).ssd = ftl.ssd := by
  unfold increaseWritePtr
  simp only
  split <;> rfl

theorem openClosedForWrite_ssd : (openClosedForWrite ftl zid).1.ssd = ftl.ssd := by
  unfold openClosedForWrite ZnsFtl.acquireZoneResource
  cases ftl.isZoneResourceAvail .openZone <;> rfl

theorem acquireZoneResource_ssd (t : ResType) : (ftl.acquireZoneResource t).1.ssd = ftl.ssd := by
  unfold ZnsFtl.acquireZoneResource
  split <;> rfl

theorem admitWrite_ssd (slba n : Nat) : (admitWrite spp ftl zid slba n).1.ssd = ftl.ssd := by
  unfold admitWrite openForWrite
  repeat' split
  all_goals first
    | rfl
    | exact openClosedForWrite_ssd
    | exact openClosedForWrite_ssd.trans (acquireZoneResource_ssd _)

theorem znsWritePlain_harmless (h : ftl.ssd.PerfOk) (hmax : 0 < spp.maxChXferSize) {req : ZnsRequest}
    {ret : NvmevResult} :
    Sat (znsWritePlain clk spp ftl req ret) (fun out => out.ftl.ssd.PerfOk) Fault.Harmless := by
  unfold znsWritePlain
  simp only [pure_eq_ok]
  split
  · exact badAddress_harmless
  generalize (if req.cmd.opcode = .zoneAppend then
    (ftl.zoneDescs (lbaToZone spp ftl.zp req.cmd.slba)).wp else req.cmd.slba) = slba
  split
  · exact h
  split
  · rw [sat_ok, admitWrite_ssd, ZnsFtl.setBuffer_ssd]
    exact h
  refine (ssdAdvancePcie_harmless clk ?_ _ _).bind ?_
  · rwa [increaseWritePtr_ssd, admitWrite_ssd, ZnsFtl.setBuffer_ssd]
  · intro r hr
    refine (writePages_harmless hmax _ _ hr).bind ?_
    intro p hp
    exact hp

theorem znsRead_harmless (h : ftl.ssd.PerfOk) (hmax : 0 < spp.maxChXferSize) {req : ZnsRequest} :
    Sat (znsRead clk spp ftl req) (fun out => out.ftl.ssd.PerfOk) Fault.Harmless := by
  unfold znsRead
  simp only [pure_eq_ok]
  split
  · exact badAddress_harmless
  refine (readPages_harmless hmax _ _ h).bind ?_
  intro r hr
  refine (ssdAdvancePcie_harmless clk hr _ _).bind ?_
  intro r' hr'
  exact hr'

theorem openClosedZone_ssd : (openClosedZone ftl zid).1.ssd = ftl.ssd := by
  unfold openClosedZone ZnsFtl.acquireZoneResource
  cases ftl.isZoneResourceAvail .openZone <;> rfl

theorem leaveActive_ssd (zrwa : Bool) : (leaveActive ftl zrwa).ssd = ftl.ssd := by
  unfold leaveActive
  cases zrwa <;> rfl

theorem toEmpty_ssd : (toEmpty ftl zid).ssd = ftl.ssd := by
  unfold toEmpty resetZone
  simp only
  split <;> rfl

theorem zmgmtSendOpenZone_ssd (zrwa : Nat) : (zmgmtSendOpenZone ftl zid zrwa).1.ssd = ftl.ssd := by
  unfold zmgmtSendOpenZone
  repeat' split
  all_goals first
    | rfl
    | exact openClosedZone_ssd
    | exact openClosedZone_ssd.trans (acquireZoneResource_ssd _)
    | exact openClosedZone_ssd.trans ((acquireZoneResource_ssd _).trans (acquireZoneResource_ssd _))

theorem zmgmtSendFinishZone_ssd : (zmgmtSendFinishZone ftl zid).1.ssd = ftl.ssd := by
  unfold zmgmtSendFinishZone
  split
  all_goals first
    | rfl
    | exact leaveActive_ssd _

theorem zmgmtSendResetZone_ssd : (zmgmtSendResetZone ftl zid).1.ssd = ftl.ssd := by
  unfold zmgmtSendResetZone
  split
  all_goals first
    | rfl
    | exact toEmpty_ssd
    | exact toEmpty_ssd.trans (leaveActive_ssd _)

end NVMeVirt
