import NVMeVirt.ZnsAppend

/-!
# Addresses of zones

The descriptors add up `zslba` in 64 bits, and the helpers of `zns_ftl.h` multiply in 32. They agree on
the zones that end before `2^32`.
-/

namespace NVMeVirt
set_option autoImplicit false
open Outcome

variable {clk : Nat → Nat} {spp : SsdParams} {ftl ftl' ftl'' : ZnsFtl} {leak zid lba : Nat}

/-- What the helpers and the descriptor of a zone say about it, and about an LBA. A write makes the zone
full when it takes the write pointer to the end of the zone. -/
structure ZoneAgrees (spp : SsdParams) (ftl : ZnsFtl) (zid lba : Nat) : Prop where
  slba : zoneToSlba spp ftl.zp zid = (ftl.zoneDescs zid).zslba
  elba : zoneToElba spp ftl.zp zid =
    (ftl.zoneDescs zid).zslba + (ftl.zoneDescs zid).zoneCapacity - 1
  zone : lbaToZone spp ftl.zp lba = zid ↔ (ftl.zoneDescs zid).zslba ≤ lba ∧
    lba < (ftl.zoneDescs zid).zslba + (ftl.zoneDescs zid).zoneCapacity
  full : (ftl.zoneDescs zid).state ≠ .full → ∀ n,
    ((increaseWritePtr spp ftl zid n).zoneDescs zid).state = .full ↔
      ((increaseWritePtr spp ftl zid n).zoneDescs zid).wp =
        (ftl.zoneDescs zid).zslba + (ftl.zoneDescs zid).zoneCapacity

/-- The two states have the same zones at the same places. -/
structure SameZones (ftl ftl' : ZnsFtl) : Prop where
  zp : ftl'.zp = ftl.zp
  zslba : ∀ z, (ftl'.zoneDescs z).zslba = (ftl.zoneDescs z).zslba
  zoneCapacity : ∀ z, (ftl'.zoneDescs z).zoneCapacity = (ftl.zoneDescs z).zoneCapacity

theorem SameZones.trans (h : SameZones ftl ftl') (h' : SameZones ftl' ftl'') : SameZones ftl ftl'' :=
  ⟨h'.zp.trans h.zp, fun z => (h'.zslba z).trans (h.zslba z),
    fun z => (h'.zoneCapacity z).trans (h.zoneCapacity z)⟩

theorem SameZones.of_descs (hp : ftl'.zp = ftl.zp) (hd : ftl'.zoneDescs = ftl.zoneDescs) :
    SameZones ftl ftl' :=
  ⟨hp, fun z => by rw [hd], fun z => by rw [hd]⟩

theorem SameZones.of_others (zid : Nat) (hp : ftl'.zp = ftl.zp)
    (hzone : (ftl'.zoneDescs zid).zslba = (ftl.zoneDescs zid).zslba ∧
      (ftl'.zoneDescs zid).zoneCapacity = (ftl.zoneDescs zid).zoneCapacity)
    (hothers : ∀ z, z ≠ zid → ftl'.zoneDescs z = ftl.zoneDescs z) : SameZones ftl ftl' := by
  refine ⟨hp, ?_, ?_⟩
  all_goals
    intro z
    by_cases hz : z = zid
    · subst hz
      first | exact hzone.1 | exact hzone.2
    · rw [hothers z hz]

theorem zmgmtSend_sameZones {garbage slba option : Nat} {action : ZoneSendAction} {r : ZnsFtl × Nat}
    (k : ZnsOk spp ftl leak) (h : zmgmtSend spp garbage ftl slba action option = .ok r) :
    SameZones ftl r.1 := by
  obtain ⟨d, hm, hd⟩ := (zmgmtSend_acted k h).moved
  refine .of_others (lbaToZone spp ftl.zp slba) hm.zp ?_ ?_
  · rw [hm.descs, Function.update_self]
    exact ⟨hd.zslba, hd.zoneCapacity⟩
  · intro z hz
    rw [hm.descs, Function.update_of_ne hz]

theorem znsZmgmtSend_sameZones {garbage slba option : Nat} {selectAll : Bool} {action : ZoneSendAction}
    {r : ZnsFtl × Nat} (k : ZnsOk spp ftl leak)
    (h : znsZmgmtSend spp garbage ftl selectAll slba action option = .ok r) : SameZones ftl r.1 := by
  unfold znsZmgmtSend at h
  cases selectAll with
  | false => exact zmgmtSend_sameZones k h
  | true =>
    obtain ⟨m, hm, hr⟩ := bind_eq_ok.mp h
    cases hr
    refine (Sat.of_ok (P := fun s => ZnsOk spp s leak ∧ SameZones ftl s)
      (upto_sat (Q := fun _ => True) (fun _ s => ZnsOk spp s leak ∧ SameZones ftl s) _
        ⟨k, .of_descs rfl rfl⟩ ?_) hm).2
    rintro zid _ s ⟨hok, hsame⟩
    cases hx : zmgmtSend spp garbage s (zoneToSlba spp s.zp zid) action option with
    | error e => trivial
    | ok r => exact ⟨(zmgmtSend_sent hok hx).ok, hsame.trans (zmgmtSend_sameZones hok hx)⟩

theorem znsWrite_sameZones {req : ZnsRequest} {ret : NvmevResult} {out : ZnsOutcome} (k : ZnsOk spp ftl leak)
    (hlen : req.cmd.length < 2^16) (h : znsWrite clk spp ftl req ret = .ok out) : SameZones ftl out.ftl := by
  unfold znsWrite at h
  rw [k.zoned.lpnToZone_eq] at h
  dsimp only at h
  split at h
  · cases h
  split at h
  · rename_i hv
    obtain ⟨hz, hcase⟩ := znsWritePlain_cases h
    cases hcase with
    | refused short => exact .of_descs rfl rfl
    | rejected room failed =>
      dsimp only
      rw [admission_rejected k hz failed]
      exact .of_descs (charged_zp _) (charged_zoneDescs _)
    | written room passed pages =>
      have w := zoneWritten_of k hlen hz hv passed
      refine .of_others (zoneOf spp ftl req.cmd) (w _).zp ?_ (w _).others
      obtain ⟨s, _, hd⟩ := (w _).zone
      rw [hd]
      exact ⟨rfl, rfl⟩
  · rename_i hv
    obtain ⟨h₁, h₂⟩ := znsWriteZrwa_kept k (Bool.eq_true_of_not_eq_false hv) h
    by_cases hf : FillsZrwa spp ftl req.cmd
    · exact .of_others _ (h₁ hf).zp (h₁ hf).addresses (h₁ hf).others
    · exact .of_others _ (h₂ hf).zp (h₂ hf).addresses (h₂ hf).others

theorem znsProcNvmeIoCmd_sameZones {garbage : Nat} {req : ZnsRequest} {ret : NvmevResult} {out : ZnsOutcome}
    (k : ZnsOk spp ftl leak) (hlen : req.cmd.length < 2^16)
    (h : znsProcNvmeIoCmd clk spp garbage ftl req ret = .ok out) : SameZones ftl out.ftl := by
  unfold znsProcNvmeIoCmd at h
  cases hop : req.cmd.opcode with
  | write =>
    rw [hop] at h
    exact znsWrite_sameZones k hlen h
  | zoneAppend =>
    rw [hop] at h
    exact znsWrite_sameZones k hlen h
  | read =>
    rw [hop] at h
    obtain ⟨hp, _, hd, _⟩ := znsRead_idle h
    exact .of_descs hp hd
  | flush =>
    rw [hop] at h
    cases h
    exact .of_descs rfl rfl
  | zoneMgmtSend =>
    rw [hop] at h
    obtain ⟨r, hr, h⟩ := bind_eq_ok.mp h
    cases h
    exact znsZmgmtSend_sameZones k hr
  | zoneMgmtRecv =>
    rw [hop] at h
    cases h
    exact .of_descs rfl rfl
  | other =>
    rw [hop] at h
    cases h
    exact .of_descs rfl rfl

section Run

variable {cfg : ZnsConfig} {old : ZnsParams} {size : Nat} {Allowed : ZnsFtl → ZnsCommand → Prop}

/-- In every state of a run the zones are where `__init_descriptor` has put them. -/
structure LaidOut (spp : SsdParams) (size : Nat) (ftl : ZnsFtl) : Prop where
  zoned : Zoned spp ftl.zp
  fits : ftl.zp.nrZones * ftl.zp.zoneSize ≤ size
  zslba : ∀ z, (ftl.zoneDescs z).zslba = u64 (z * lbasPerZone ftl.zp)
  zoneCapacity : ∀ z, (ftl.zoneDescs z).zoneCapacity = lbasPerZone ftl.zp

theorem LaidOut.same (p : LaidOut spp size ftl) (h : SameZones ftl ftl') : LaidOut spp size ftl' := by
  refine ⟨?_, ?_, ?_, ?_⟩
  · rw [h.zp]
    exact p.zoned
  · rw [h.zp]
    exact p.fits
  · intro z
    rw [h.zslba, h.zp]
    exact p.zslba z
  · intro z
    rw [h.zoneCapacity, h.zp]
    exact p.zoneCapacity z

theorem ZnsReachable.laidOut (h : ZnsReachable clk cfg old size spp Allowed ftl) : LaidOut spp size ftl := by
  induction h with
  | init h =>
    unfold znsInitNamespace at h
    obtain ⟨_, hspp, h⟩ := bind_eq_ok.mp h
    obtain ⟨zp, hzp, h⟩ := bind_eq_ok.mp h
    cases h
    obtain ⟨hzoned, hfit⟩ := znsInitParams_zoned (ssdInitParams_checked hspp).paged hzp
    exact ⟨hzoned, hfit, fun _ => rfl, fun _ => rfl⟩
  | command before allowed length h ih =>
    obtain ⟨leak, k⟩ := before.ok
    exact ih.same (znsProcNvmeIoCmd_sameZones k length h)
  | release before ref n ih => exact ih.same (.of_descs (by simp) (by simp))

end Run

variable {size : Nat}

structure ZoneAt (zp : ZnsParams) (d : ZoneDescriptor) (zid : Nat) : Prop where
  zslba : d.zslba = zid * lbasPerZone zp
  zoneCapacity : d.zoneCapacity = lbasPerZone zp
  pos : 0 < lbasPerZone zp
  end_lt : zid * lbasPerZone zp + lbasPerZone zp < 2^63

theorem LaidOut.zoneAt (p : LaidOut spp size ftl) (hsize : size < 2^64) (hz : zid < ftl.zp.nrZones) :
    ZoneAt ftl.zp (ftl.zoneDescs zid) zid := by
  have hend : (zid + 1) * lbasPerZone ftl.zp ≤ size / lbaSize := by
    calc (zid + 1) * lbasPerZone ftl.zp ≤ ftl.zp.nrZones * lbasPerZone ftl.zp := Nat.mul_le_mul_right _ hz
      _ ≤ ftl.zp.nrZones * ftl.zp.zoneSize / lbaSize := Nat.mul_div_le_mul_div_assoc _ _ _
      _ ≤ size / lbaSize := Nat.div_le_div_right p.fits
  have hlba : lbaSize = 512 := by decide
  rw [Nat.succ_mul, hlba] at hend
  refine ⟨?_, p.zoneCapacity zid, p.zoned.lbas_pos, by omega⟩
  rw [p.zslba]
  exact Nat.mod_eq_of_lt (by omega)

theorem mod_eq_self_iff {x n : Nat} (hn : 0 < n) : x % n = x ↔ x < n :=
  ⟨fun h => h ▸ Nat.mod_lt x hn, Nat.mod_eq_of_lt⟩

theorem ZoneAt.slba_iff {zp : ZnsParams} {d : ZoneDescriptor} (a : ZoneAt zp d zid) (g : Zoned spp zp) :
    zoneToSlba spp zp zid = d.zslba ↔ zid * lbasPerZone zp < 2^32 := by
  unfold zoneToSlba u32
  rw [a.zslba, g.secsz]
  exact mod_eq_self_iff (by decide)

theorem ZoneAt.elba_iff {zp : ZnsParams} {d : ZoneDescriptor} (a : ZoneAt zp d zid) (g : Zoned spp zp)
    (hz : zid < zp.nrZones) : zoneToElba spp zp zid = d.zslba + d.zoneCapacity - 1 ↔
      (zid + 1) * lbasPerZone zp < 2^32 := by
  have hzones := g.zones_lt
  have hend := a.end_lt
  have hpos := a.pos
  have hself : u32 (zid + 1) = zid + 1 := Nat.mod_eq_of_lt (by omega)
  have hnext : zoneToSlba spp zp (u32 (zid + 1)) = u32 (zid * lbasPerZone zp + lbasPerZone zp) := by
    unfold zoneToSlba
    rw [hself, g.secsz, Nat.succ_mul]
    rfl
  unfold zoneToElba
  rw [a.zslba, a.zoneCapacity, hnext, Nat.succ_mul]
  unfold u32 u64
  omega

/-- Of the LBAs with the number of a zone in 32 bits only those below `2^32` zones are in it. -/
theorem ZoneAt.zone_iff {zp : ZnsParams} {d : ZoneDescriptor} (a : ZoneAt zp d zid) (g : Zoned spp zp)
    (hz : zid < zp.nrZones) (lba : Nat) :
    (lbaToZone spp zp lba = zid ↔ d.zslba ≤ lba ∧ lba < d.zslba + d.zoneCapacity) ↔
      (lba / lbasPerZone zp % 2^32 = zid → lba / lbasPerZone zp < 2^32) := by
  have hzones := g.zones_lt
  have hin : (d.zslba ≤ lba ∧ lba < d.zslba + d.zoneCapacity) ↔ lba / lbasPerZone zp = zid := by
    rw [a.zslba, a.zoneCapacity]
    exact ⟨fun h => Zoned.zone_of h.1 h.2, fun h => g.in_zone h⟩
  rw [hin]
  unfold lbaToZone u32
  rw [g.secsz]
  change (lba / lbasPerZone zp % 2^32 = zid ↔ lba / lbasPerZone zp = zid) ↔ _
  generalize lba / lbasPerZone zp = q
  constructor
  · intro h hq
    rw [h.mp hq]
    omega
  · intro h
    constructor
    · intro hq
      rw [← hq]
      exact (Nat.mod_eq_of_lt (h hq)).symm
    · rintro rfl
      exact Nat.mod_eq_of_lt (by omega)

theorem increaseWritePtr_state (ftl : ZnsFtl) (zid n : Nat) :
    ((increaseWritePtr spp ftl zid n).zoneDescs zid).state =
      if u64 ((ftl.zoneDescs zid).wp + u32 n) =
          u64 (zoneToSlba spp ftl.zp zid + (ftl.zoneDescs zid).zoneCapacity) then .full
      else (ftl.zoneDescs zid).state := by
  unfold increaseWritePtr
  dsimp only
  have hzp : (ftl.setDesc zid { ftl.zoneDescs zid with wp := u64 ((ftl.zoneDescs zid).wp + u32 n) }).zp =
      ftl.zp := rfl
  rw [hzp]
  split
  · simp [ZnsFtl.changeZoneState, ZnsFtl.setDesc]
  · simp [ZnsFtl.setDesc]

theorem ZoneAt.full_iff (a : ZoneAt ftl.zp (ftl.zoneDescs zid) zid) (g : Zoned spp ftl.zp)
    (hsmall : zid * lbasPerZone ftl.zp < 2^32) (hstate : (ftl.zoneDescs zid).state ≠ .full) (n : Nat) :
    ((increaseWritePtr spp ftl zid n).zoneDescs zid).state = .full ↔
      ((increaseWritePtr spp ftl zid n).zoneDescs zid).wp =
        (ftl.zoneDescs zid).zslba + (ftl.zoneDescs zid).zoneCapacity := by
  have hend := a.end_lt
  have hfit : u64 ((ftl.zoneDescs zid).zslba + (ftl.zoneDescs zid).zoneCapacity) =
      (ftl.zoneDescs zid).zslba + (ftl.zoneDescs zid).zoneCapacity := Nat.mod_eq_of_lt (by
    rw [a.zslba, a.zoneCapacity]
    omega)
  rw [increaseWritePtr_state, increaseWritePtr_wp, if_pos rfl, (a.slba_iff g).mpr hsmall, hfit]
  split
  · rename_i hat
    exact iff_of_true rfl hat
  · rename_i hat
    exact iff_of_false hstate hat

/-- In every state of a run the helpers agree with the descriptor of a zone exactly when the zone ends
before `2^32`, and about an LBA when it is not one that wraps round to the zone. -/
theorem zone_agrees_iff {cfg : ZnsConfig} {old : ZnsParams} {Allowed : ZnsFtl → ZnsCommand → Prop}
    (h : ZnsReachable clk cfg old size spp Allowed ftl) (hsize : size < 2^64) (hz : zid < ftl.zp.nrZones) :
    ZoneAgrees spp ftl zid lba ↔ (zid + 1) * lbasPerZone ftl.zp < 2^32 ∧
      (lba / lbasPerZone ftl.zp % 2^32 = zid → lba / lbasPerZone ftl.zp < 2^32) := by
  have p := h.laidOut
  have a := p.zoneAt hsize hz
  constructor
  · intro k
    exact ⟨(a.elba_iff p.zoned hz).mp k.elba, (a.zone_iff p.zoned hz lba).mp k.zone⟩
  · rintro ⟨hsmall, hlba⟩
    have hstart : zid * lbasPerZone ftl.zp < 2^32 :=
      (Nat.mul_le_mul_right _ (Nat.le_succ zid)).trans_lt hsmall
    exact ⟨(a.slba_iff p.zoned).mpr hstart, (a.elba_iff p.zoned hz).mpr hsmall,
      (a.zone_iff p.zoned hz lba).mpr hlba, a.full_iff p.zoned hstart⟩

/-- On a namespace of 1 TiB the last zone and its last LBA. -/
theorem zone_agrees_1TiB : ∃ spp ftl, ZnsReachable (fun _ => 0) wdZn540 zeroedParams (2^40) spp (fun _ _ => True) ftl ∧
    ftl.zp.nrZones = 512 ∧ ZoneAgrees spp ftl 511 (2^31 - 1) := by
  obtain ⟨spp, ftl, hinit, hzones, hlbas⟩ : ∃ spp ftl, znsInitNamespace wdZn540 zeroedParams (2^40) = .ok (spp, ftl) ∧
      ftl.zp.nrZones = 512 ∧ lbasPerZone ftl.zp = 2^22 := ⟨_, _, rfl, rfl, rfl⟩
  have hr : ZnsReachable (fun _ => 0) wdZn540 zeroedParams (2^40) spp (fun _ _ => True) ftl := .init hinit
  refine ⟨spp, ftl, hr, hzones, (zone_agrees_iff hr (by decide) (by omega)).mpr ?_⟩
  rw [hlbas]
  decide

/-- At 2 TiB the last zone seems to end at `2^64 - 1`. With one zone more, this one seems to start at 0,
and it does not become full at its end. -/
theorem zone_agrees_fails_2TiB : (∃ spp ftl, ZnsReachable (fun _ => 0) wdZn540 zeroedParams (2^41) spp (fun _ _ => True) ftl ∧
      ftl.zp.nrZones = 1024 ∧ zoneToElba spp ftl.zp 1023 = 2^64 - 1 ∧ ¬ ZoneAgrees spp ftl 1023 0) ∧
    ∃ spp ftl, ZnsReachable (fun _ => 0) wdZn540 zeroedParams (2^41 + 2^31) spp (fun _ _ => True) ftl ∧
      ftl.zp.nrZones = 1025 ∧ (ftl.zoneDescs 1024).zslba = 2^32 ∧ zoneToSlba spp ftl.zp 1024 = 0 ∧
      ¬ ZoneAgrees spp ftl 1024 0 := by
  constructor
  · refine ⟨_, _, .init rfl, rfl, rfl, ?_⟩
    intro k
    have helba := k.elba
    exact absurd helba (by decide +kernel)
  · refine ⟨_, _, .init rfl, rfl, rfl, rfl, ?_⟩
    intro k
    have hslba := k.slba
    exact absurd hslba (by decide +kernel)

end NVMeVirt
