import NVMeVirt.ZnsZones

/-!
# What the management actions do to a zone

Each action, on a zone that the namespace has, is a `ZoneStep` with the counters moved along.
A status other than success means that nothing changed. The write buffers are left alone.
-/

namespace NVMeVirt
set_option autoImplicit false
open Outcome

namespace ZnsFtl

variable (ftl : ZnsFtl) (t : ResType) (n zid : Nat) (d : ZoneDescriptor) (s : ZoneState)

@[simp] theorem setCnt_zp : (ftl.setCnt t n).zp = ftl.zp := rfl
@[simp] theorem setCnt_ssd : (ftl.setCnt t n).ssd = ftl.ssd := rfl
@[simp] theorem setCnt_zoneDescs : (ftl.setCnt t n).zoneDescs = ftl.zoneDescs := rfl
@[simp] theorem setCnt_writeBuffer : (ftl.setCnt t n).writeBuffer = ftl.writeBuffer := rfl
@[simp] theorem setCnt_zoneWriteBuffer : (ftl.setCnt t n).zoneWriteBuffer = ftl.zoneWriteBuffer := rfl
@[simp] theorem setCnt_zwraBuffer : (ftl.setCnt t n).zwraBuffer = ftl.zwraBuffer := rfl
@[simp] theorem setCnt_self :
    (ftl.setCnt t n).resInfos t = { ftl.resInfos t with acquiredCnt := n } := by simp [setCnt]

@[simp] theorem setCnt_other {t' : ResType} (h : t' ≠ t) :
    (ftl.setCnt t n).resInfos t' = ftl.resInfos t' := by simp [setCnt, h]

@[simp] theorem setDesc_zp : (ftl.setDesc zid d).zp = ftl.zp := rfl
@[simp] theorem setDesc_ssd : (ftl.setDesc zid d).ssd = ftl.ssd := rfl
@[simp] theorem setDesc_resInfos : (ftl.setDesc zid d).resInfos = ftl.resInfos := rfl
@[simp] theorem setDesc_writeBuffer : (ftl.setDesc zid d).writeBuffer = ftl.writeBuffer := rfl
@[simp] theorem setDesc_zoneWriteBuffer :
    (ftl.setDesc zid d).zoneWriteBuffer = ftl.zoneWriteBuffer := rfl
@[simp] theorem setDesc_zwraBuffer : (ftl.setDesc zid d).zwraBuffer = ftl.zwraBuffer := rfl
@[simp] theorem setDesc_zoneDescs :
    (ftl.setDesc zid d).zoneDescs = Function.update ftl.zoneDescs zid d := rfl

@[simp] theorem changeZoneState_zp : (ftl.changeZoneState zid s).zp = ftl.zp := rfl
@[simp] theorem changeZoneState_ssd : (ftl.changeZoneState zid s).ssd = ftl.ssd := rfl
@[simp] theorem changeZoneState_resInfos : (ftl.changeZoneState zid s).resInfos = ftl.resInfos := rfl
@[simp] theorem changeZoneState_writeBuffer :
    (ftl.changeZoneState zid s).writeBuffer = ftl.writeBuffer := rfl
@[simp] theorem changeZoneState_zoneWriteBuffer :
    (ftl.changeZoneState zid s).zoneWriteBuffer = ftl.zoneWriteBuffer := rfl
@[simp] theorem changeZoneState_zwraBuffer :
    (ftl.changeZoneState zid s).zwraBuffer = ftl.zwraBuffer := rfl
@[simp] theorem changeZoneState_zoneDescs : (ftl.changeZoneState zid s).zoneDescs =
    Function.update ftl.zoneDescs zid { ftl.zoneDescs zid with state := s } := rfl

variable {ftl t}

theorem releaseZoneResource_held (h : 0 < (ftl.resInfos t).acquiredCnt)
    (hlt : (ftl.resInfos t).acquiredCnt < 2^32) :
    ftl.releaseZoneResource t = ftl.setCnt t ((ftl.resInfos t).acquiredCnt - 1) := by
  unfold releaseZoneResource
  have hs : u32 ((ftl.resInfos t).acquiredCnt + (2^32 - 1)) = (ftl.resInfos t).acquiredCnt - 1 := by
    unfold u32
    omega
  rw [hs]

theorem acquireZoneResource_avail (h : (ftl.resInfos t).acquiredCnt < (ftl.resInfos t).totalCnt) :
    ftl.acquireZoneResource t = (ftl.setCnt t ((ftl.resInfos t).acquiredCnt + 1), true) := by
  unfold acquireZoneResource isZoneResourceAvail
  simp [h]

theorem acquireZoneResource_full (h : ¬ (ftl.resInfos t).acquiredCnt < (ftl.resInfos t).totalCnt) :
    ftl.acquireZoneResource t = (ftl, false) := by
  unfold acquireZoneResource isZoneResourceAvail
  simp [h]

theorem isZoneResourceFull_iff :
    ftl.isZoneResourceFull t = true ↔ (ftl.resInfos t).acquiredCnt = (ftl.resInfos t).totalCnt := by
  simp [isZoneResourceFull]

end ZnsFtl

/-- The result of an action on zone `zid`, with `g` when it asks for a random write area. -/
structure Acted (g : Prop) (ftl : ZnsFtl) (zid : Nat) (r : ZnsFtl × Nat) : Prop where
  moved : ∃ d, Moved ftl r.1 zid d 0 ∧ ZoneAction g (ftl.zoneDescs zid) d
  failed : r.2 ≠ nvmeScSuccess → r.1 = ftl
  writeBuffer : r.1.writeBuffer = ftl.writeBuffer
  zoneWriteBuffer : r.1.zoneWriteBuffer = ftl.zoneWriteBuffer

variable {spp : SsdParams} {ftl ftl' : ZnsFtl} {zid leak : Nat} {g : Prop}

theorem Moved.stay (k : ZnsOk spp ftl leak) : Moved ftl ftl zid (ftl.zoneDescs zid) 0 where
  zp := rfl
  descs := (Function.update_eq_self zid _).symm
  total := fun _ => rfl
  bound := fun t => by
    rw [k.ledger.total]
    exact k.ledger.bound t
  count := fun t => by simp [leakOf]

theorem Acted.stay (k : ZnsOk spp ftl leak) (status : Nat) : Acted g ftl zid (ftl, status) :=
  ⟨⟨_, .stay k, .stay⟩, fun _ => rfl, rfl, rfl⟩

/-- The counters that a descriptor asks for are the counters that an action has to leave, up to
what it forgets to give back. -/
theorem Moved.of_leak (k : ZnsOk spp ftl leak) (hz : zid < ftl.zp.nrZones) {d : ZoneDescriptor}
    {more : Nat} (hp : ftl'.zp = ftl.zp) (hd : ftl'.zoneDescs = Function.update ftl.zoneDescs zid d)
    (hr : ∀ t, ftl'.resInfos t = { ftl.resInfos t with acquiredCnt := (ftl.resInfos t).acquiredCnt +
      (holds t d).toNat - (holds t (ftl.zoneDescs zid)).toNat + leakOf t more })
    (ha : ∀ t, holds t d = true → holds t (ftl.zoneDescs zid) = false →
      (ftl.resInfos t).acquiredCnt < ftl.zp.nrZones)
    (hl : ∀ t, leakOf t more ≤ (holds t (ftl.zoneDescs zid)).toNat - (holds t d).toNat) :
    Moved ftl ftl' zid d more := by
  refine ⟨hp, hd, fun t => by rw [hr], ?_, ?_⟩
  all_goals
    intro t
    have hb := k.ledger.bound t
    have hh := k.ledger.held (t := t) hz
    have hav := ha t
    have hlk := hl t
    rw [hr]
    simp only [k.ledger.total]
    cases hw : holds t (ftl.zoneDescs zid) <;> cases hw' : holds t d <;>
      simp only [hw, hw', Bool.toNat_true, Bool.toNat_false, true_implies] at hh hav hlk ⊢ <;> omega

theorem Moved.of_counts (k : ZnsOk spp ftl leak) (hz : zid < ftl.zp.nrZones) {d : ZoneDescriptor}
    (hp : ftl'.zp = ftl.zp) (hd : ftl'.zoneDescs = Function.update ftl.zoneDescs zid d)
    (hr : ∀ t, ftl'.resInfos t = { ftl.resInfos t with acquiredCnt :=
      (ftl.resInfos t).acquiredCnt + (holds t d).toNat - (holds t (ftl.zoneDescs zid)).toNat })
    (ha : ∀ t, holds t d = true → holds t (ftl.zoneDescs zid) = false →
      (ftl.resInfos t).acquiredCnt < ftl.zp.nrZones) : Moved ftl ftl' zid d 0 := by
  have hzero : ∀ t, leakOf t 0 = 0 := by
    intro t
    simp [leakOf]
  apply Moved.of_leak k hz hp hd _ ha
  · intro t
    rw [hzero]
    exact Nat.zero_le _
  · intro t
    rw [hzero, Nat.add_zero, hr]

theorem opened_holds {d : ZoneDescriptor} (h : Opened d) :
    holds .openZone d = true ∧ holds .activeZone d = true ∧ holds .zrwaZone d = d.zrwav := by
  rcases h with h | h <;> simp [holds, h]

theorem holds_openedExpl {v : Bool} {c z w : Nat} (t : ResType) :
    holds t ⟨.openedExpl, v, c, z, w⟩ = if t = .zrwaZone then v else true := by
  cases t <;> simp [holds]

theorem holds_openedImpl {v : Bool} {c z w : Nat} (t : ResType) :
    holds t ⟨.openedImpl, v, c, z, w⟩ = if t = .zrwaZone then v else true := by
  cases t <;> simp [holds]

theorem closed_holds {d : ZoneDescriptor} (h : d.state = .closed) :
    holds .openZone d = false ∧ holds .activeZone d = true ∧ holds .zrwaZone d = d.zrwav := by
  simp [holds, h]

theorem idle_holds {d : ZoneDescriptor} (h : ¬ Active d) (t : ResType) : holds t d = false := by
  cases hs : d.state <;> simp_all [Active, Opened] <;> cases t <;> simp [holds, hs]

theorem ZnsOk.release (k : ZnsOk spp ftl leak) (hz : zid < ftl.zp.nrZones) {t : ResType}
    (h : holds t (ftl.zoneDescs zid) = true) {m : ZnsFtl} (hm : m.resInfos t = ftl.resInfos t) :
    m.releaseZoneResource t = m.setCnt t ((ftl.resInfos t).acquiredCnt - 1) := by
  rw [← hm]
  have h₁ := k.ledger.held hz h
  have h₂ := k.ledger.bound t
  have h₃ := k.zoned.zones_lt
  exact ZnsFtl.releaseZoneResource_held (by rw [hm]; exact h₁) (by rw [hm]; omega)

theorem ZnsOk.avail (k : ZnsOk spp ftl leak) {t : ResType} (h : ¬ ftl.isZoneResourceFull t = true) :
    (ftl.resInfos t).acquiredCnt < ftl.zp.nrZones := by
  rw [ZnsFtl.isZoneResourceFull_iff, k.ledger.total] at h
  have := k.ledger.bound t
  omega

theorem closeOpened_acted (k : ZnsOk spp ftl leak) (hz : zid < ftl.zp.nrZones)
    (h : Opened (ftl.zoneDescs zid)) :
    Acted g ftl zid ((ftl.changeZoneState zid .closed).releaseZoneResource .openZone, nvmeScSuccess) := by
  obtain ⟨ho, hac, hzr⟩ := opened_holds h
  rw [k.release hz ho (m := ftl.changeZoneState zid .closed) rfl]
  refine ⟨⟨_, .of_counts k hz rfl rfl ?_ ?_, .activate (.inr (.inl h)) (.inr rfl)⟩, by simp, rfl, rfl⟩
  · intro t
    cases t <;> simp [ho, hac, hzr, closed_holds]
  · intro t
    cases t <;> simp +contextual [ho, hac, hzr, closed_holds]

theorem zmgmtSendCloseZone_acted (k : ZnsOk spp ftl leak) (hz : zid < ftl.zp.nrZones) :
    Acted g ftl zid (zmgmtSendCloseZone ftl zid) := by
  unfold zmgmtSendCloseZone
  split
  case h_1 hs => exact closeOpened_acted k hz (.inl hs)
  case h_2 hs => exact closeOpened_acted k hz (.inr hs)
  case h_3 => exact .stay k _
  case h_4 => exact .stay k _

/-- A state in which the zone has given back what it held, its descriptor still as it was. -/
structure GaveBack (ftl m : ZnsFtl) (zid : Nat) : Prop where
  zp : m.zp = ftl.zp
  zoneDescs : m.zoneDescs = ftl.zoneDescs
  writeBuffer : m.writeBuffer = ftl.writeBuffer
  zoneWriteBuffer : m.zoneWriteBuffer = ftl.zoneWriteBuffer
  counts : ∀ t, m.resInfos t = { ftl.resInfos t with acquiredCnt :=
    (ftl.resInfos t).acquiredCnt - (holds t (ftl.zoneDescs zid)).toNat }

theorem GaveBack.idle (h : ¬ Active (ftl.zoneDescs zid)) : GaveBack ftl ftl zid :=
  ⟨rfl, rfl, rfl, rfl, fun t => by rw [idle_holds h]; rfl⟩

theorem leaveClosed_gaveBack (k : ZnsOk spp ftl leak) (hz : zid < ftl.zp.nrZones)
    (h : (ftl.zoneDescs zid).state = .closed) :
    GaveBack ftl (leaveActive ftl (ftl.zoneDescs zid).zrwav) zid := by
  obtain ⟨ho, hac, hzr⟩ := closed_holds h
  unfold leaveActive
  rw [k.release hz hac (m := ftl) rfl]
  cases hv : (ftl.zoneDescs zid).zrwav
  · refine ⟨rfl, rfl, rfl, rfl, fun t => ?_⟩
    cases t <;> simp [ho, hac, hzr, hv]
  · rw [if_pos rfl, k.release hz (hzr.trans hv) (by simp)]
    refine ⟨rfl, rfl, rfl, rfl, fun t => ?_⟩
    cases t <;> simp [ho, hac, hzr, hv]

theorem leaveOpened_gaveBack (k : ZnsOk spp ftl leak) (hz : zid < ftl.zp.nrZones)
    (h : Opened (ftl.zoneDescs zid)) :
    GaveBack ftl (leaveActive (ftl.releaseZoneResource .openZone) (ftl.zoneDescs zid).zrwav) zid := by
  obtain ⟨ho, hac, hzr⟩ := opened_holds h
  unfold leaveActive
  rw [k.release hz ho (m := ftl) rfl, k.release hz hac (m := ftl.setCnt .openZone _) (by simp)]
  cases hv : (ftl.zoneDescs zid).zrwav
  · refine ⟨rfl, rfl, rfl, rfl, fun t => ?_⟩
    cases t <;> simp [ho, hac, hzr, hv]
  · rw [if_pos rfl, k.release hz (hzr.trans hv) (by simp)]
    refine ⟨rfl, rfl, rfl, rfl, fun t => ?_⟩
    cases t <;> simp [ho, hac, hzr, hv]

/-- A zone that gave everything back goes to a state that holds nothing. -/
theorem GaveBack.moved (k : ZnsOk spp ftl leak) (hz : zid < ftl.zp.nrZones) {m : ZnsFtl}
    (h : GaveBack ftl m zid) {d : ZoneDescriptor} (hd : ¬ Active d) (hp : ftl'.zp = m.zp)
    (hr : ftl'.resInfos = m.resInfos) (hu : ftl'.zoneDescs = Function.update m.zoneDescs zid d) :
    Moved ftl ftl' zid d 0 := by
  apply Moved.of_counts k hz (hp.trans h.zp) (by rw [hu, h.zoneDescs])
  · intro t
    rw [hr, h.counts, idle_holds hd]
    rfl
  · intro t ht
    rw [idle_holds hd] at ht
    exact absurd ht (by decide)

theorem GaveBack.finish (k : ZnsOk spp ftl leak) (hz : zid < ftl.zp.nrZones) {m : ZnsFtl}
    (h : GaveBack ftl m zid) : Acted g ftl zid (m.changeZoneState zid .full, nvmeScSuccess) := by
  refine ⟨⟨_, h.moved k hz (not_active_full rfl) rfl rfl (by rw [← h.zoneDescs]; rfl), .finish⟩,
    by simp, h.writeBuffer, h.zoneWriteBuffer⟩

theorem zmgmtSendFinishZone_acted (k : ZnsOk spp ftl leak) (hz : zid < ftl.zp.nrZones) :
    Acted g ftl zid (zmgmtSendFinishZone ftl zid) := by
  unfold zmgmtSendFinishZone
  split
  case h_1 hs => exact (leaveOpened_gaveBack k hz (.inl hs)).finish k hz
  case h_2 hs => exact (leaveOpened_gaveBack k hz (.inr hs)).finish k hz
  case h_3 hs => exact (leaveClosed_gaveBack k hz hs).finish k hz
  case h_4 hs => exact (GaveBack.idle (not_active_empty hs)).finish k hz
  case h_5 => exact .stay k _
  case h_6 => exact .stay k _

def cleared (d : ZoneDescriptor) : ZoneDescriptor := { d with state := .empty, wp := d.zslba, zrwav := false }

theorem toEmpty_eq (m : ZnsFtl) : toEmpty m zid =
    { m with
      zoneDescs := Function.update m.zoneDescs zid (cleared (m.zoneDescs zid))
      zwraBuffer := if m.zp.zrwaBufferSize ≠ 0 then
        Function.update m.zwraBuffer zid (bufferRefill (m.zwraBuffer zid)) else m.zwraBuffer } := by
  unfold toEmpty resetZone cleared
  by_cases h : m.zp.zrwaBufferSize = 0
  · simp [ZnsFtl.changeZoneState, ZnsFtl.setDesc, h]
  · simp [ZnsFtl.changeZoneState, ZnsFtl.setDesc, h]

theorem GaveBack.reset (k : ZnsOk spp ftl leak) (hz : zid < ftl.zp.nrZones) {m : ZnsFtl}
    (h : GaveBack ftl m zid) : Acted g ftl zid (toEmpty m zid, nvmeScSuccess) ∧
      (toEmpty m zid).zoneDescs = Function.update ftl.zoneDescs zid (cleared (ftl.zoneDescs zid)) := by
  rw [toEmpty_eq, h.zoneDescs]
  refine ⟨⟨⟨_, h.moved k hz (d := cleared (ftl.zoneDescs zid)) (not_active_empty rfl) rfl rfl ?_, .clear⟩,
    by simp, h.writeBuffer, h.zoneWriteBuffer⟩, rfl⟩
  rw [h.zoneDescs]

/-- Every zone of a namespace that no command can put out of use resets. -/
theorem zmgmtSendResetZone_reset (k : ZnsOk spp ftl leak) (hz : zid < ftl.zp.nrZones) :
    (zmgmtSendResetZone ftl zid).2 = nvmeScSuccess ∧ Acted g ftl zid (zmgmtSendResetZone ftl zid) ∧
      (zmgmtSendResetZone ftl zid).1.zoneDescs =
        Function.update ftl.zoneDescs zid (cleared (ftl.zoneDescs zid)) := by
  have hu := (k.zones zid hz).usable
  unfold zmgmtSendResetZone
  split
  case h_1 hs => exact ⟨rfl, (leaveOpened_gaveBack k hz (.inl hs)).reset k hz⟩
  case h_2 hs => exact ⟨rfl, (leaveOpened_gaveBack k hz (.inr hs)).reset k hz⟩
  case h_3 hs => exact ⟨rfl, (leaveClosed_gaveBack k hz hs).reset k hz⟩
  case h_4 hs => exact ⟨rfl, (GaveBack.idle (not_active_full hs)).reset k hz⟩
  case h_5 hs => exact ⟨rfl, (GaveBack.idle (not_active_empty hs)).reset k hz⟩
  case h_6 h₁ h₂ h₃ h₄ h₅ =>
    cases hs : (ftl.zoneDescs zid).state <;> simp_all

theorem openClosedZone_avail {m : ZnsFtl}
    (h : (m.resInfos .openZone).acquiredCnt < (m.resInfos .openZone).totalCnt) :
    openClosedZone m zid = ((m.setCnt .openZone ((m.resInfos .openZone).acquiredCnt + 1)).changeZoneState
      zid .openedExpl, nvmeScSuccess) := by
  unfold openClosedZone
  rw [ZnsFtl.acquireZoneResource_avail h]

theorem openClosedZone_acted (k : ZnsOk spp ftl leak) (hz : zid < ftl.zp.nrZones)
    (hs : (ftl.zoneDescs zid).state = .closed) : Acted g ftl zid (openClosedZone ftl zid) := by
  obtain ⟨ho, hac, hzr⟩ := closed_holds hs
  by_cases h : (ftl.resInfos .openZone).acquiredCnt < (ftl.resInfos .openZone).totalCnt
  · rw [openClosedZone_avail h]
    refine ⟨⟨_, .of_counts k hz rfl rfl ?_ ?_, .activate (.inr (.inr hs)) (.inl (.inr rfl))⟩,
      by simp, rfl, rfl⟩
    · intro t
      cases t <;> simp [ho, hac, hzr, holds_openedExpl]
    · rw [k.ledger.total] at h
      intro t
      cases t <;> simp +contextual [h, hac, hzr, holds_openedExpl]
  · unfold openClosedZone
    rw [ZnsFtl.acquireZoneResource_full h]
    exact .stay k _

/-- Opening an empty zone, once the counters were found not full. -/
theorem openEmptyZone_acted (k : ZnsOk spp ftl leak) (hz : zid < ftl.zp.nrZones)
    (hs : (ftl.zoneDescs zid).state = .empty)
    (h₁ : (ftl.resInfos .activeZone).acquiredCnt < ftl.zp.nrZones)
    (h₂ : (ftl.resInfos .openZone).acquiredCnt < ftl.zp.nrZones) :
    Acted g ftl zid (openClosedZone (ftl.acquireZoneResource .activeZone).1 zid) := by
  have hidle := idle_holds (not_active_empty hs)
  have hv := (k.zones zid hz).plain hs
  rw [ZnsFtl.acquireZoneResource_avail (by rw [k.ledger.total]; exact h₁),
    openClosedZone_avail (by simpa [k.ledger.total] using h₂)]
  refine ⟨⟨_, .of_counts k hz rfl rfl ?_ ?_, .activate (.inl hs) (.inl (.inr rfl))⟩, by simp, rfl, rfl⟩
  · intro t
    cases t <;> simp [hidle, hv, holds_openedExpl]
  · intro t
    cases t <;> simp [h₁, h₂, hv, holds_openedExpl]

theorem openZrwaZone_acted (k : ZnsOk spp ftl leak) (hz : zid < ftl.zp.nrZones)
    (hs : (ftl.zoneDescs zid).state = .empty)
    (h₁ : (ftl.resInfos .activeZone).acquiredCnt < ftl.zp.nrZones)
    (h₂ : (ftl.resInfos .openZone).acquiredCnt < ftl.zp.nrZones)
    (h₃ : (ftl.resInfos .zrwaZone).acquiredCnt < ftl.zp.nrZones) (hg : g) {m : ZnsFtl}
    (hm : m = (ftl.acquireZoneResource .zrwaZone).1) :
    Acted g ftl zid (openClosedZone
      ((m.setDesc zid { m.zoneDescs zid with zrwav := true }).acquireZoneResource .activeZone).1 zid) := by
  have hidle := idle_holds (not_active_empty hs)
  rw [ZnsFtl.acquireZoneResource_avail (by rw [k.ledger.total]; exact h₃)] at hm
  subst hm
  rw [ZnsFtl.acquireZoneResource_avail (by simpa [k.ledger.total] using h₁),
    openClosedZone_avail (by simpa [k.ledger.total] using h₂)]
  refine ⟨⟨_, .of_counts k hz rfl ?_ ?_ ?_, .grant hg hs⟩, by simp, rfl, rfl⟩
  · simp
  · intro t
    cases t <;> simp [hidle, holds_openedExpl]
  · intro t
    cases t <;> simp [h₁, h₂, h₃]

theorem zmgmtSendOpenZone_acted (k : ZnsOk spp ftl leak) (hz : zid < ftl.zp.nrZones) {zrwa : Nat}
    (hg : zrwa ≠ 0 → g) : Acted g ftl zid (zmgmtSendOpenZone ftl zid zrwa) := by
  unfold zmgmtSendOpenZone
  split
  case h_1 hs =>
    split
    · exact .stay k _
    rename_i h₁
    split
    · exact .stay k _
    rename_i h₂
    split
    · rename_i hask
      split
      · exact .stay k _
      rename_i h₃
      exact openZrwaZone_acted k hz hs (k.avail h₁) (k.avail h₂) (k.avail h₃) (hg hask) rfl
    · exact openEmptyZone_acted k hz hs (k.avail h₁) (k.avail h₂)
  case h_2 hs => exact openClosedZone_acted k hz hs
  case h_3 hs =>
    obtain ⟨ho, hac, hzr⟩ := opened_holds (.inl hs)
    refine ⟨⟨_, .of_counts k hz rfl rfl ?_ ?_, .activate (.inr (.inl (.inl hs))) (.inl (.inr rfl))⟩,
      by simp, rfl, rfl⟩
    · intro t
      cases t <;> simp [ho, hac, hzr, holds_openedExpl]
    · intro t
      cases t <;> simp +contextual [ho, hac, hzr, holds_openedExpl]
  case h_4 => exact .stay k _
  case h_5 => exact .stay k _

theorem zmgmtSendOfflineZone_acted (k : ZnsOk spp ftl leak) (hz : zid < ftl.zp.nrZones) :
    Acted g ftl zid (zmgmtSendOfflineZone ftl zid) := by
  have hu := (k.zones zid hz).usable
  unfold zmgmtSendOfflineZone
  split
  case h_1 hs => exact absurd hs hu.1
  case h_2 => exact .stay k _
  case h_3 => exact .stay k _

theorem Moved.setWp (k : ZnsOk spp ftl leak) (hz : zid < ftl.zp.nrZones) (w : Nat) :
    Moved ftl (ftl.setDesc zid { ftl.zoneDescs zid with wp := w }) zid
      { ftl.zoneDescs zid with wp := w } 0 := by
  have hsame : ∀ t, holds t { ftl.zoneDescs zid with wp := w } = holds t (ftl.zoneDescs zid) := by
    intro t
    cases t <;> rfl
  refine Moved.of_counts k hz ?_ ?_ ?_ ?_
  · rfl
  · rfl
  · intro t
    rw [hsame, Nat.add_sub_cancel]
    rfl
  · intro t h₁ h₂
    rw [hsame, h₂] at h₁
    exact absurd h₁ (by decide)

theorem flushExplicit_acted (k : ZnsOk spp ftl leak) (hz : zid < ftl.zp.nrZones)
    (hv : (ftl.zoneDescs zid).zrwav = true) (ha : Active (ftl.zoneDescs zid)) (slba : Nat) :
    Acted g ftl zid (flushExplicit spp ftl zid slba, nvmeScSuccess) := by
  have hact : holds .activeZone (ftl.zoneDescs zid) = true := by
    rcases ha with ho | hc
    · exact (opened_holds ho).2.1
    · exact (closed_holds hc).2.1
  have hzrwa : holds .zrwaZone (ftl.zoneDescs zid) = true := by
    rcases ha with ho | hc
    · exact (opened_holds ho).2.2.trans hv
    · exact (closed_holds hc).2.2.trans hv
  unfold flushExplicit
  by_cases hend : u64 (slba + 1) = u64 (zoneToSlba spp ftl.zp zid + (ftl.zoneDescs zid).zoneCapacity)
  · simp only [ZnsFtl.setDesc_zp, hend, if_true]
    let full : ZoneDescriptor := { ftl.zoneDescs zid with
      wp := u64 (zoneToSlba spp ftl.zp zid + (ftl.zoneDescs zid).zoneCapacity), state := .full }
    have hidle := idle_holds (not_active_full (d := full) rfl)
    -- a closed zone has no open resource to give back
    rcases ha with ho | hc
    · have hopen := (opened_holds ho).1
      have hne : (ftl.zoneDescs zid).state ≠ .closed := by
        rcases ho with ho | ho <;> simp [ho]
      rw [if_neg hne, k.release hz hopen (m := ftl.setDesc zid _) rfl,
        k.release hz hact (m := ZnsFtl.setCnt _ .openZone _) (by simp), k.release hz hzrwa (by simp)]
      refine ⟨⟨full, .of_counts k hz rfl (by simp [full]) ?_ ?_, .flush hv (.inl rfl)⟩, by simp, rfl, rfl⟩
      · intro t
        cases t <;> simp [hopen, hact, hzrwa, hidle]
      · intro t
        simp [hidle]
    · have hopen := (closed_holds hc).1
      rw [if_pos hc, k.release hz hact (m := ftl.setDesc zid _) rfl, k.release hz hzrwa (by simp)]
      refine ⟨⟨full, .of_counts k hz rfl (by simp [full]) ?_ ?_, .flush hv (.inl rfl)⟩, by simp, rfl, rfl⟩
      · intro t
        cases t <;> simp [hopen, hact, hzrwa, hidle]
      · intro t
        simp [hidle]
  · simp only [ZnsFtl.setDesc_zp, hend, if_false]
    exact ⟨⟨_, .setWp k hz _, .flush hv (.inr ha)⟩, by simp, rfl, rfl⟩

theorem zmgmtSendFlushExplicitZrwa_acted {slba : Nat} {r : ZnsFtl × Nat} (k : ZnsOk spp ftl leak)
    (hz : lbaToZone spp ftl.zp slba < ftl.zp.nrZones)
    (h : zmgmtSendFlushExplicitZrwa spp ftl slba = .ok r) : Acted g ftl (lbaToZone spp ftl.zp slba) r := by
  unfold zmgmtSendFlushExplicitZrwa at h
  simp only [pure_eq_ok] at h
  split at h
  · cases h
    exact .stay k _
  rename_i hv
  split at h
  · cases h
    exact .stay k _
  obtain ⟨_, h⟩ := divisor_bind_ok.mp h
  split at h
  · cases h
    exact .stay k _
  replace hv := Bool.eq_true_of_not_eq_false hv
  split at h
  case h_1 hs =>
    cases h
    exact flushExplicit_acted k hz hv (.inl (.inr hs)) slba
  case h_2 hs =>
    cases h
    exact flushExplicit_acted k hz hv (.inl (.inl hs)) slba
  case h_3 hs =>
    cases h
    exact flushExplicit_acted k hz hv (.inr hs) slba
  case h_4 =>
    cases h
    exact .stay k _

theorem zmgmtSend_acted {garbage slba option : Nat} {action : ZoneSendAction} {r : ZnsFtl × Nat}
    (k : ZnsOk spp ftl leak) (h : zmgmtSend spp garbage ftl slba action option = .ok r) :
    Acted (action = .open ∧ option ≠ 0) ftl (lbaToZone spp ftl.zp slba) r := by
  unfold zmgmtSend at h
  simp only [pure_eq_ok] at h
  by_cases hother : action = .other
  · rw [if_pos hother] at h
    cases h
    exact .stay k _
  rw [if_neg hother] at h
  by_cases hz : ftl.zp.nrZones ≤ lbaToZone spp ftl.zp slba
  · rw [if_pos hz] at h
    cases h
  rw [if_neg hz] at h
  replace hz := Nat.lt_of_not_le hz
  cases action with
  | close =>
    cases h
    exact zmgmtSendCloseZone_acted k hz
  | finish =>
    cases h
    exact zmgmtSendFinishZone_acted k hz
  | «open» =>
    cases h
    exact zmgmtSendOpenZone_acted k hz (fun hne => ⟨rfl, hne⟩)
  | reset =>
    cases h
    exact (zmgmtSendResetZone_reset k hz).2.1
  | offline =>
    cases h
    exact zmgmtSendOfflineZone_acted k hz
  | flushExplZrwa => exact zmgmtSendFlushExplicitZrwa_acted k hz h
  | other => exact absurd rfl hother

theorem zmgmtSend_zone {garbage slba option : Nat} {action : ZoneSendAction} {r : ZnsFtl × Nat}
    (h : zmgmtSend spp garbage ftl slba action option = .ok r) :
    lbaToZone spp ftl.zp slba < ftl.zp.nrZones ∨ r.1 = ftl := by
  unfold zmgmtSend at h
  simp only [pure_eq_ok] at h
  by_cases hother : action = .other
  · rw [if_pos hother] at h
    cases h
    exact .inr rfl
  rw [if_neg hother] at h
  by_cases hz : ftl.zp.nrZones ≤ lbaToZone spp ftl.zp slba
  · rw [if_pos hz] at h
    cases h
  · exact .inl (Nat.lt_of_not_le hz)

theorem Acted.ok {r : ZnsFtl × Nat} (k : ZnsOk spp ftl leak) (h : Acted g ftl zid r)
    (hz : zid < ftl.zp.nrZones ∨ r.1 = ftl) : ZnsOk spp r.1 leak := by
  rcases hz with hz | hz
  · obtain ⟨d, hm, hd⟩ := h.moved
    exact k.moved hz hm (.action hd)
  · rw [hz]
    exact k

theorem Acted.pointers {r : ZnsFtl × Nat} (h : Acted g ftl zid r)
    (hz : zid < ftl.zp.nrZones ∨ r.1 = ftl) (p : PointersOk spp ftl) : PointersOk spp r.1 := by
  rcases hz with hz | hz
  · obtain ⟨d, hm, hd⟩ := h.moved
    exact p.action hz hm hd
  · rw [hz]
    exact p

theorem Acted.zrwav {r : ZnsFtl × Nat} (h : Acted g ftl zid r) (hg : ¬ g) (z : Nat)
    (hd : (ftl.zoneDescs z).zrwav = false) : (r.1.zoneDescs z).zrwav = false := by
  obtain ⟨d, hm, ha⟩ := h.moved
  rw [hm.descs]
  by_cases hne : z = zid
  · subst hne
    rw [Function.update_self]
    exact ha.zrwav hg hd
  · rw [Function.update_of_ne hne]
    exact hd

/-- What a management send keeps and what it leaves alone. -/
structure Sent (g : Prop) (spp : SsdParams) (ftl ftl' : ZnsFtl) (leak : Nat) : Prop where
  ok : ZnsOk spp ftl' leak
  pointers : PointersOk spp ftl → PointersOk spp ftl'
  zrwav : ¬ g → ∀ z, (ftl.zoneDescs z).zrwav = false → (ftl'.zoneDescs z).zrwav = false
  zp : ftl'.zp = ftl.zp
  writeBuffer : ftl'.writeBuffer = ftl.writeBuffer
  zoneWriteBuffer : ftl'.zoneWriteBuffer = ftl.zoneWriteBuffer

theorem Sent.refl (k : ZnsOk spp ftl leak) : Sent g spp ftl ftl leak :=
  ⟨k, id, fun _ _ => id, rfl, rfl, rfl⟩

theorem Sent.trans {ftl'' : ZnsFtl} (h : Sent g spp ftl ftl' leak) (h' : Sent g spp ftl' ftl'' leak) :
    Sent g spp ftl ftl'' leak :=
  ⟨h'.ok, fun p => h'.pointers (h.pointers p), fun hg z hz => h'.zrwav hg z (h.zrwav hg z hz),
    h'.zp.trans h.zp, h'.writeBuffer.trans h.writeBuffer, h'.zoneWriteBuffer.trans h.zoneWriteBuffer⟩

theorem zmgmtSend_sent {garbage slba option : Nat} {action : ZoneSendAction} {r : ZnsFtl × Nat}
    (k : ZnsOk spp ftl leak) (h : zmgmtSend spp garbage ftl slba action option = .ok r) :
    Sent (action = .open ∧ option ≠ 0) spp ftl r.1 leak := by
  have ha := zmgmtSend_acted k h
  have hz := zmgmtSend_zone h
  obtain ⟨d, hm, _⟩ := ha.moved
  exact ⟨ha.ok k hz, ha.pointers hz, ha.zrwav, hm.zp, ha.writeBuffer, ha.zoneWriteBuffer⟩

theorem znsZmgmtSend_sent {garbage slba option : Nat} {selectAll : Bool} {action : ZoneSendAction}
    {r : ZnsFtl × Nat} (k : ZnsOk spp ftl leak)
    (h : znsZmgmtSend spp garbage ftl selectAll slba action option = .ok r) :
    Sent (action = .open ∧ option ≠ 0) spp ftl r.1 leak := by
  unfold znsZmgmtSend at h
  cases selectAll with
  | false => exact zmgmtSend_sent k h
  | true =>
    obtain ⟨m, hm, hr⟩ := bind_eq_ok.mp h
    cases hr
    refine Sat.of_ok (P := fun s => Sent (action = .open ∧ option ≠ 0) spp ftl s leak)
      (upto_sat (Q := fun _ => True) (fun _ s => Sent _ spp ftl s leak) _ (.refl k) ?_) hm
    intro zid _ s hs
    cases hx : zmgmtSend spp garbage s (zoneToSlba spp s.zp zid) action option with
    | error e => trivial
    | ok r => exact hs.trans (zmgmtSend_sent hs.ok hx)

end NVMeVirt
