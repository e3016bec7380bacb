import NVMeVirt.ZnsTraps

/-!
# Random write areas of size 0

With all ZRWA sizes 0 an area may be granted, but none can be used. In every zone but the first
its range checks refuse all LBAs. In the first zone, whose write pointer is 0, they refuse none,
and the flush granularity is a zero divisor.
-/

namespace NVMeVirt
set_option autoImplicit false
open Outcome

variable {clk : Nat → Nat} {spp : SsdParams} {ftl ftl' : ZnsFtl} {zid : Nat}

/-- Neither an empty zone nor one with a random write area has moved its write pointer. -/
def AtStart (d : ZoneDescriptor) : Prop := d.state = .empty ∨ d.zrwav = true → d.wp = d.zslba

structure ZrwaOff (spp : SsdParams) (ftl : ZnsFtl) : Prop where
  ok : ZnsOk spp ftl 0
  size : ftl.zp.zoneSize < 2^32
  lbasPerZrwa : ftl.zp.lbasPerZrwa = 0
  lbasPerZrwafg : ftl.zp.lbasPerZrwafg = 0
  zslba : ∀ z < ftl.zp.nrZones, (ftl.zoneDescs z).zslba = z * lbasPerZone ftl.zp
  start : ∀ z < ftl.zp.nrZones, AtStart (ftl.zoneDescs z)
  perf : ftl.ssd.PerfOk

theorem zone_lbas_lt {zp : ZnsParams} (hsize : zp.zoneSize < 2^32) {z : Nat} (hz : z < 2^32) :
    z * lbasPerZone zp < 2^55 := by
  have hlbas : lbasPerZone zp ≤ 2^23 := by
    unfold lbasPerZone lbaSize lbaBits
    omega
  calc z * lbasPerZone zp ≤ z * 2^23 := Nat.mul_le_mul_left _ hlbas
    _ < 2^55 := by omega

namespace ZrwaOff

theorem zslba_lt (k : ZrwaOff spp ftl) {z : Nat} (hz : z < ftl.zp.nrZones) :
    z * lbasPerZone ftl.zp < 2^55 :=
  zone_lbas_lt k.size (Nat.lt_trans hz k.ok.zoned.zones_lt)

theorem in_range_lt (k : ZrwaOff spp ftl) {lba : Nat} (h : lba < ftl.zp.nrZones * lbasPerZone ftl.zp) :
    lba < 2^56 :=
  Nat.lt_trans h (Nat.lt_trans (zone_lbas_lt k.size k.ok.zoned.zones_lt) (by decide))

/-- The write pointer of a zone with a random write area. -/
theorem wp (k : ZrwaOff spp ftl) (hz : zid < ftl.zp.nrZones) (hv : (ftl.zoneDescs zid).zrwav = true) :
    (ftl.zoneDescs zid).wp = zid * lbasPerZone ftl.zp :=
  (k.start zid hz (.inr hv)).trans (k.zslba zid hz)

theorem wp_pos (k : ZrwaOff spp ftl) (hz : zid < ftl.zp.nrZones) (hv : (ftl.zoneDescs zid).zrwav = true)
    (hne : zid ≠ 0) : 0 < (ftl.zoneDescs zid).wp ∧ (ftl.zoneDescs zid).wp < 2^55 := by
  rw [k.wp hz hv]
  exact ⟨Nat.mul_pos (Nat.pos_of_ne_zero hne) k.ok.zoned.lbas_pos, k.zslba_lt hz⟩

theorem step (k : ZrwaOff spp ftl) (ok : ZnsOk spp ftl' 0) (hp : ftl'.zp = ftl.zp) (perf : ftl'.ssd.PerfOk)
    (hd : ∀ z < ftl.zp.nrZones, (ftl'.zoneDescs z).zslba = (ftl.zoneDescs z).zslba ∧
      AtStart (ftl'.zoneDescs z)) : ZrwaOff spp ftl' where
  ok := ok
  size := hp ▸ k.size
  lbasPerZrwa := hp ▸ k.lbasPerZrwa
  lbasPerZrwafg := hp ▸ k.lbasPerZrwafg
  zslba := by
    rw [hp]
    exact fun z hz => (hd z hz).1.trans (k.zslba z hz)
  start := by
    rw [hp]
    exact fun z hz => (hd z hz).2
  perf := perf

theorem idle (k : ZrwaOff spp ftl) (hp : ftl'.zp = ftl.zp) (hr : ftl'.resInfos = ftl.resInfos)
    (hd : ftl'.zoneDescs = ftl.zoneDescs) (perf : ftl'.ssd.PerfOk) : ZrwaOff spp ftl' :=
  k.step (k.ok.congr hp hr hd) hp perf (fun z hz => by rw [hd]; exact ⟨rfl, k.start z hz⟩)

theorem room (k : ZrwaOff spp ftl) (hz : zid < ftl.zp.nrZones) (hs : (ftl.zoneDescs zid).state = .empty)
    (t : ResType) : (ftl.resInfos t).acquiredCnt < (ftl.resInfos t).totalCnt := by
  rw [k.ok.ledger.total, k.ok.ledger.count]
  have hidle : holds t (ftl.zoneDescs zid) = false := idle_holds (not_active_empty hs) t
  have hlt := Census.tally_lt (p := fun z => holds t (ftl.zoneDescs z)) hz hidle
  simpa [leakOf] using hlt

end ZrwaOff

/-- What every action but the flush does to the write pointer. -/
def Carried (d d' : ZoneDescriptor) : Prop :=
  d'.zslba = d.zslba ∧ (d'.wp = d'.zslba ∨
    d'.wp = d.wp ∧ (d'.state = .empty ∨ d'.zrwav = true → d.state = .empty ∨ d.zrwav = true))

theorem Carried.refl (d : ZoneDescriptor) : Carried d d := ⟨rfl, .inr ⟨rfl, id⟩⟩

theorem Carried.atStart {d d' : ZoneDescriptor} (h : Carried d d') (hs : AtStart d) : AtStart d' := by
  intro hd'
  rcases h.2 with hwp | ⟨hwp, hback⟩
  · exact hwp
  · rw [hwp, h.1]
    exact hs (hback hd')

theorem Carried.state {d : ZoneDescriptor} {s : ZoneState} (hs : s ≠ .empty) :
    Carried d { d with state := s } :=
  ⟨rfl, .inr ⟨rfl, fun h => h.imp (fun he => absurd he hs) id⟩⟩

theorem Carried.update {d : ZoneDescriptor} (h : Carried (ftl.zoneDescs zid) d) (z : Nat) :
    Carried (ftl.zoneDescs z) (Function.update ftl.zoneDescs zid d z) := by
  by_cases hne : z = zid
  · subst hne
    rw [Function.update_self]
    exact h
  · rw [Function.update_of_ne hne]
    exact .refl _

theorem zmgmtSendCloseZone_carried (z : Nat) :
    Carried (ftl.zoneDescs z) ((zmgmtSendCloseZone ftl zid).1.zoneDescs z) := by
  have hclosed : Carried (ftl.zoneDescs zid) { ftl.zoneDescs zid with state := .closed } := .state (by decide)
  unfold zmgmtSendCloseZone
  split
  case h_1 => exact hclosed.update z
  case h_2 => exact hclosed.update z
  case h_3 => exact .refl _
  case h_4 => exact .refl _

theorem leaveActive_zoneDescs (zrwa : Bool) : (leaveActive ftl zrwa).zoneDescs = ftl.zoneDescs := by
  unfold leaveActive
  cases zrwa <;> rfl

theorem zmgmtSendFinishZone_carried (z : Nat) :
    Carried (ftl.zoneDescs z) ((zmgmtSendFinishZone ftl zid).1.zoneDescs z) := by
  have hfull : Carried (ftl.zoneDescs zid) { ftl.zoneDescs zid with state := .full } := .state (by decide)
  have hleave : ∀ (m : ZnsFtl) (zrwa : Bool), m.zoneDescs = ftl.zoneDescs →
      Carried (ftl.zoneDescs z) (((leaveActive m zrwa).changeZoneState zid .full).zoneDescs z) := by
    intro m zrwa hm
    rw [ZnsFtl.changeZoneState_zoneDescs, leaveActive_zoneDescs, hm]
    exact hfull.update z
  unfold zmgmtSendFinishZone
  split
  case h_1 => exact hleave _ _ rfl
  case h_2 => exact hleave _ _ rfl
  case h_3 => exact hleave _ _ rfl
  case h_4 => exact hfull.update z
  case h_5 => exact .refl _
  case h_6 => exact .refl _

theorem toEmpty_carried {m : ZnsFtl} (hm : m.zoneDescs = ftl.zoneDescs) (z : Nat) :
    Carried (ftl.zoneDescs z) ((toEmpty m zid).zoneDescs z) := by
  have hcleared : Carried (ftl.zoneDescs zid) (cleared (ftl.zoneDescs zid)) := ⟨rfl, .inl rfl⟩
  have hdescs : (toEmpty m zid).zoneDescs =
      Function.update ftl.zoneDescs zid (cleared (ftl.zoneDescs zid)) := by
    rw [toEmpty_eq]
    split <;> simp [hm]
  rw [hdescs]
  exact hcleared.update z

theorem zmgmtSendResetZone_carried (z : Nat) :
    Carried (ftl.zoneDescs z) ((zmgmtSendResetZone ftl zid).1.zoneDescs z) := by
  have hopened : ∀ zrwa,
      (leaveActive (ftl.releaseZoneResource .openZone) zrwa).zoneDescs = ftl.zoneDescs :=
    fun zrwa => leaveActive_zoneDescs zrwa
  unfold zmgmtSendResetZone
  split
  case h_1 => exact toEmpty_carried (hopened _) z
  case h_2 => exact toEmpty_carried (hopened _) z
  case h_3 => exact toEmpty_carried (leaveActive_zoneDescs _) z
  case h_4 => exact toEmpty_carried (m := ftl) rfl z
  case h_5 => exact toEmpty_carried (m := ftl) rfl z
  case h_6 => exact .refl _

theorem openClosedZone_zoneDescs {m : ZnsFtl}
    (h : (m.resInfos .openZone).acquiredCnt < (m.resInfos .openZone).totalCnt) :
    (openClosedZone m zid).1.zoneDescs =
      Function.update m.zoneDescs zid { m.zoneDescs zid with state := .openedExpl } := by
  rw [openClosedZone_avail h]
  rfl

/-- An open of an empty zone succeeds, and grants the random write area that it is asked for. -/
theorem zmgmtSendOpenZone_empty (k : ZrwaOff spp ftl) (hz : zid < ftl.zp.nrZones)
    (hs : (ftl.zoneDescs zid).state = .empty) (zrwa : Nat) :
    (zmgmtSendOpenZone ftl zid zrwa).1.zoneDescs = Function.update ftl.zoneDescs zid
      { ftl.zoneDescs zid with state := .openedExpl, zrwav := decide (zrwa ≠ 0) } := by
  have hroom := k.room hz hs
  have hfull : ∀ t, ftl.isZoneResourceFull t = false := by
    intro t
    rw [← Bool.not_eq_true, ZnsFtl.isZoneResourceFull_iff]
    exact Nat.ne_of_lt (hroom t)
  have hplain := (k.ok.zones zid hz).plain hs
  unfold zmgmtSendOpenZone
  simp only [hs, hfull]
  by_cases hask : zrwa = 0
  · subst hask
    rw [if_neg (by decide), if_neg (by decide), if_neg (by decide),
      ZnsFtl.acquireZoneResource_avail (hroom _), openClosedZone_zoneDescs (by simpa using hroom .openZone)]
    simp [hplain]
  · rw [if_neg (by decide), if_neg (by decide), if_pos hask, if_neg (by decide),
      ZnsFtl.acquireZoneResource_avail (hroom .zrwaZone),
      ZnsFtl.acquireZoneResource_avail (by simpa using hroom .activeZone),
      openClosedZone_zoneDescs (by simpa using hroom .openZone)]
    simp [hask]

/-- An open of any other zone leaves its random write area as it is. -/
theorem zmgmtSendOpenZone_other (hs : (ftl.zoneDescs zid).state ≠ .empty) (zrwa : Nat) :
    (zmgmtSendOpenZone ftl zid zrwa).1.zoneDescs = ftl.zoneDescs ∨
    (zmgmtSendOpenZone ftl zid zrwa).1.zoneDescs = Function.update ftl.zoneDescs zid
      { ftl.zoneDescs zid with state := .openedExpl } := by
  unfold zmgmtSendOpenZone
  split
  case h_1 he => exact absurd he hs
  case h_2 =>
    by_cases h : (ftl.resInfos .openZone).acquiredCnt < (ftl.resInfos .openZone).totalCnt
    · exact .inr (openClosedZone_zoneDescs h)
    · unfold openClosedZone
      rw [ZnsFtl.acquireZoneResource_full h]
      exact .inl rfl
  case h_3 => exact .inr rfl
  case h_4 => exact .inl rfl
  case h_5 => exact .inl rfl

theorem zmgmtSendOpenZone_carried (k : ZrwaOff spp ftl) (hz : zid < ftl.zp.nrZones) (zrwa z : Nat) :
    Carried (ftl.zoneDescs z) ((zmgmtSendOpenZone ftl zid zrwa).1.zoneDescs z) := by
  by_cases hs : (ftl.zoneDescs zid).state = .empty
  · have hopened : Carried (ftl.zoneDescs zid)
        { ftl.zoneDescs zid with state := .openedExpl, zrwav := decide (zrwa ≠ 0) } :=
      ⟨rfl, .inr ⟨rfl, fun _ => .inl hs⟩⟩
    rw [zmgmtSendOpenZone_empty k hz hs]
    exact hopened.update z
  · have hopened : Carried (ftl.zoneDescs zid) { ftl.zoneDescs zid with state := .openedExpl } :=
      .state (by decide)
    rcases zmgmtSendOpenZone_other hs zrwa with h | h
    · rw [h]
      exact .refl _
    · rw [h]
      exact hopened.update z

/-- The range check refuses a flush in every zone but the first. -/
theorem zmgmtSendFlushExplicitZrwa_refused (k : ZrwaOff spp ftl) {slba : Nat}
    (hz : lbaToZone spp ftl.zp slba < ftl.zp.nrZones) (hfirst : (ftl.zoneDescs 0).zrwav = false) :
    ∃ status, zmgmtSendFlushExplicitZrwa spp ftl slba = .ok (ftl, status) := by
  unfold zmgmtSendFlushExplicitZrwa
  simp only [pure_eq_ok]
  split
  · exact ⟨_, rfl⟩
  rename_i hv
  replace hv := Bool.eq_true_of_not_eq_false hv
  have hne : lbaToZone spp ftl.zp slba ≠ 0 := by
    intro he
    rw [he, hfirst] at hv
    cases hv
  obtain ⟨hpos, hlt⟩ := k.wp_pos hz hv hne
  have hend : u64 ((ftl.zoneDescs (lbaToZone spp ftl.zp slba)).wp + ftl.zp.lbasPerZrwa + (2^64 - 1)) =
      (ftl.zoneDescs (lbaToZone spp ftl.zp slba)).wp - 1 := by
    rw [k.lbasPerZrwa]
    unfold u64
    omega
  rw [hend, if_pos]
  · exact ⟨_, rfl⟩
  · intro hrange
    have := Nat.le_trans hrange.2 (Nat.min_le_left _ _)
    omega

theorem zmgmtSendFlushExplicitZrwa_first (k : ZrwaOff spp ftl) (hz : 0 < ftl.zp.nrZones)
    (hv : (ftl.zoneDescs 0).zrwav = true) :
    zmgmtSendFlushExplicitZrwa spp ftl 0 = .error .divideError := by
  have hzone : lbaToZone spp ftl.zp 0 = 0 := by
    unfold lbaToZone u32
    rw [Nat.zero_div, Nat.zero_mod]
  have hwp : (ftl.zoneDescs 0).wp = 0 := by rw [k.wp hz hv, Nat.zero_mul]
  unfold zmgmtSendFlushExplicitZrwa
  simp only [hzone, hv, hwp, k.lbasPerZrwafg]
  rw [if_neg (by decide), if_neg (fun h => h ⟨Nat.zero_le _, Nat.zero_le _⟩)]
  rfl

theorem zmgmtSend_off (k : ZrwaOff spp ftl) {garbage slba option : Nat} {action : ZoneSendAction}
    (hfirst : action = .flushExplZrwa → (ftl.zoneDescs 0).zrwav = false) :
    Sat (zmgmtSend spp garbage ftl slba action option)
      (fun r => ZrwaOff spp r.1 ∧ (action = .flushExplZrwa → r.1 = ftl)) Fault.Harmless := by
  have hall : ∀ r, zmgmtSend spp garbage ftl slba action option = .ok r → r.1.ssd = ftl.ssd →
      (∀ z, Carried (ftl.zoneDescs z) (r.1.zoneDescs z)) → ZrwaOff spp r.1 := by
    intro r hr hssd hd
    have hs := zmgmtSend_sent k.ok hr
    exact k.step hs.ok hs.zp (hssd ▸ k.perf) (fun z hz => ⟨(hd z).1, (hd z).atStart (k.start z hz)⟩)
  unfold zmgmtSend at hall ⊢
  simp only [pure_eq_ok] at hall ⊢
  by_cases hother : action = .other
  · rw [if_pos hother]
    exact ⟨k, fun _ => rfl⟩
  rw [if_neg hother] at hall ⊢
  by_cases hz : ftl.zp.nrZones ≤ lbaToZone spp ftl.zp slba
  · rw [if_pos hz]
    exact badAddress_harmless
  rw [if_neg hz] at hall ⊢
  replace hz := Nat.lt_of_not_le hz
  cases action with
  | close =>
    refine ⟨hall _ rfl ?_ zmgmtSendCloseZone_carried, fun h => by cases h⟩
    unfold zmgmtSendCloseZone
    split <;> rfl
  | finish => exact ⟨hall _ rfl zmgmtSendFinishZone_ssd zmgmtSendFinishZone_carried, fun h => by cases h⟩
  | «open» =>
    exact ⟨hall _ rfl (zmgmtSendOpenZone_ssd _) (zmgmtSendOpenZone_carried k hz option),
      fun h => by cases h⟩
  | reset => exact ⟨hall _ rfl zmgmtSendResetZone_ssd zmgmtSendResetZone_carried, fun h => by cases h⟩
  | offline =>
    refine ⟨hall _ rfl ?_ ?_, fun h => by cases h⟩
    · unfold zmgmtSendOfflineZone
      split <;> rfl
    · intro z
      have hoffline : Carried (ftl.zoneDescs (lbaToZone spp ftl.zp slba))
        { ftl.zoneDescs (lbaToZone spp ftl.zp slba) with state := .offline } := .state (by decide)
      unfold zmgmtSendOfflineZone
      split
      · exact hoffline.update z
      · exact .refl _
      · exact .refl _
  | flushExplZrwa =>
    obtain ⟨status, hr⟩ := zmgmtSendFlushExplicitZrwa_refused k hz (hfirst rfl)
    rw [hr]
    exact ⟨k, fun _ => rfl⟩
  | other => exact absurd rfl hother

theorem znsZmgmtSend_off (k : ZrwaOff spp ftl) (hfirst : (ftl.zoneDescs 0).zrwav = false)
    {garbage slba option : Nat} {selectAll : Bool} {action : ZoneSendAction} :
    Sat (znsZmgmtSend spp garbage ftl selectAll slba action option) (fun r => ZrwaOff spp r.1)
      Fault.Harmless := by
  unfold znsZmgmtSend
  cases selectAll with
  | false => exact (zmgmtSend_off k fun _ => hfirst).mono (fun r h => h.1) (fun e h => h)
  | true =>
    refine Sat.bind (upto_sat (fun _ s => ZrwaOff spp s ∧
      (action = .flushExplZrwa → (s.zoneDescs 0).zrwav = false)) _ ⟨k, fun _ => hfirst⟩ ?_) (fun s h => h.1)
    intro zid _ s hs
    refine (zmgmtSend_off hs.1 hs.2).bind ?_
    intro r hr
    refine ⟨hr.1, fun hflush => ?_⟩
    rw [hr.2 hflush]
    exact hs.2 hflush

/-- The command opens the first zone with the option while the zone is empty. -/
def GrantsFirst (spp : SsdParams) (ftl : ZnsFtl) (cmd : ZnsCommand) : Prop :=
  AsksZrwa cmd ∧ 0 < ftl.zp.nrZones ∧ (cmd.selectAll = true ∨ zoneOf spp ftl cmd = 0) ∧
  (ftl.zoneDescs 0).state = .empty

theorem zmgmtSend_open_first (k : ZrwaOff spp ftl) {garbage slba option : Nat} {r : ZnsFtl × Nat}
    (hopt : option ≠ 0) (h : zmgmtSend spp garbage ftl slba .open option = .ok r) :
    lbaToZone spp ftl.zp slba < ftl.zp.nrZones ∧
    ((r.1.zoneDescs 0).zrwav = true ↔ (ftl.zoneDescs 0).zrwav = true ∨
      lbaToZone spp ftl.zp slba = 0 ∧ (ftl.zoneDescs 0).state = .empty) ∧
    ((r.1.zoneDescs 0).state = .empty ↔
      (ftl.zoneDescs 0).state = .empty ∧ lbaToZone spp ftl.zp slba ≠ 0) := by
  unfold zmgmtSend at h
  simp only [pure_eq_ok, reduceCtorEq, if_false] at h
  split at h
  · cases h
  rename_i hz
  cases h
  refine ⟨Nat.lt_of_not_le hz, ?_⟩
  by_cases hfirst : lbaToZone spp ftl.zp slba = 0
  · rw [hfirst]
    rw [hfirst] at hz
    by_cases hs : (ftl.zoneDescs 0).state = .empty
    · rw [zmgmtSendOpenZone_empty k (Nat.lt_of_not_le hz) hs, Function.update_self]
      simp [hs, hopt]
    · rcases zmgmtSendOpenZone_other hs option with h | h
      · rw [h]
        simp [hs]
      · rw [h, Function.update_self]
        simp [hs]
  · have hkeep : (zmgmtSendOpenZone ftl (lbaToZone spp ftl.zp slba) option).1.zoneDescs 0 =
        ftl.zoneDescs 0 := by
      by_cases hs : (ftl.zoneDescs (lbaToZone spp ftl.zp slba)).state = .empty
      · rw [zmgmtSendOpenZone_empty k (Nat.lt_of_not_le hz) hs, Function.update_of_ne (Ne.symm hfirst)]
      · rcases zmgmtSendOpenZone_other hs option with h | h
        · rw [h]
        · rw [h, Function.update_of_ne (Ne.symm hfirst)]
    rw [hkeep]
    simp [hfirst]

theorem zoneToSlba_zero (zp : ZnsParams) : lbaToZone spp zp (zoneToSlba spp zp 0) = 0 := by
  unfold lbaToZone zoneToSlba u32
  rw [Nat.zero_mul, Nat.zero_mod, Nat.zero_div, Nat.zero_mod]

/-- The open of all zones starts with the first one; a later turn that comes back to it, its
address truncated to 32 bits, finds it open. -/
theorem znsZmgmtSend_open_first (k : ZrwaOff spp ftl) (hfirst : (ftl.zoneDescs 0).zrwav = false)
    {garbage slba option : Nat} {selectAll : Bool} {r : ZnsFtl × Nat} (hopt : option ≠ 0)
    (h : znsZmgmtSend spp garbage ftl selectAll slba .open option = .ok r) :
    (r.1.zoneDescs 0).zrwav = true ↔ 0 < ftl.zp.nrZones ∧
      (selectAll = true ∨ lbaToZone spp ftl.zp slba = 0) ∧ (ftl.zoneDescs 0).state = .empty := by
  unfold znsZmgmtSend at h
  cases selectAll with
  | false =>
    change zmgmtSend spp garbage ftl slba .open option = .ok r at h
    obtain ⟨hz, hv, -⟩ := zmgmtSend_open_first k hopt h
    rw [hv, hfirst]
    constructor
    · rintro (h | ⟨hzone, hs⟩)
      · cases h
      · exact ⟨hzone ▸ hz, .inr hzone, hs⟩
    · rintro ⟨_, hzone | hzone, hs⟩
      · cases hzone
      · exact .inr ⟨hzone, hs⟩
  | true =>
    obtain ⟨s, hloop, hr⟩ := bind_eq_ok.mp h
    cases hr
    have hend : (s.zoneDescs 0).zrwav = true ↔ 0 < ftl.zp.nrZones ∧ (ftl.zoneDescs 0).state = .empty := by
      refine ((upto_sat (Q := fun _ => True) (fun n s => ZrwaOff spp s ∧
        ((s.zoneDescs 0).zrwav = true ↔ 0 < n ∧ (ftl.zoneDescs 0).state = .empty) ∧
        ((s.zoneDescs 0).state = .empty ↔ n = 0 ∧ (ftl.zoneDescs 0).state = .empty)) ftl.zp.nrZones
        ⟨k, by simp [hfirst], by simp⟩ ?_).of_ok hloop).2.1
      intro n hn s hs
      obtain ⟨ks, hv, hstate⟩ := hs
      cases hx : zmgmtSend spp garbage s (zoneToSlba spp s.zp n) .open option with
      | error e => trivial
      | ok r =>
        have hoff := (zmgmtSend_off ks (fun h => by cases h)).of_ok hx
        obtain ⟨-, hv', hstate'⟩ := zmgmtSend_open_first ks hopt hx
        refine ⟨hoff.1, ?_, ?_⟩
        · rw [hv', hv, hstate]
          rcases Nat.eq_zero_or_pos n with rfl | hpos
          · simp [zoneToSlba_zero]
          · simp [hpos, Nat.pos_iff_ne_zero.mp hpos]
        · rw [hstate', hstate]
          rcases Nat.eq_zero_or_pos n with rfl | hpos
          · simp [zoneToSlba_zero]
          · simp [Nat.pos_iff_ne_zero.mp hpos]
    simpa using hend

def LbaInRange (ftl : ZnsFtl) (cmd : ZnsCommand) : Prop := cmd.slba < ftl.zp.nrZones * lbasPerZone ftl.zp

/-- A write to a random write area outside the first zone is refused by its checks. -/
theorem admitZrwaWrite_refused (k : ZrwaOff spp ftl) (hz : zid < ftl.zp.nrZones) (hne : zid ≠ 0)
    (hv : (ftl.zoneDescs zid).zrwav = true) {slba n : Nat} (hslba : slba < 2^56) (hn : 0 < n ∧ n ≤ 2^16) :
    ∃ status, status ≠ nvmeScSuccess ∧ admitZrwaWrite spp ftl zid slba n = .ok (ftl, status) := by
  obtain ⟨hpos, hlt⟩ := k.wp_pos hz hv hne
  have hend : u64 ((ftl.zoneDescs zid).wp + u32 (2 * ftl.zp.lbasPerZrwa) + (2^64 - 1)) =
      (ftl.zoneDescs zid).wp - 1 := by
    rw [k.lbasPerZrwa]
    unfold u64 u32
    omega
  have hlast : u64 (slba + n + (2^64 - 1)) = slba + n - 1 := by
    unfold u64
    omega
  unfold admitZrwaWrite
  simp only [hend, hlast]
  split
  · exact ⟨_, by decide, rfl⟩
  split
  · exact ⟨_, by decide, rfl⟩
  rw [if_pos (by omega)]
  exact ⟨_, by decide, rfl⟩

theorem znsWriteZrwa_refused (k : ZrwaOff spp ftl) {req : ZnsRequest} {ret : NvmevResult}
    (hv : (ftl.zoneDescs (zoneOf spp ftl req.cmd)).zrwav = true) (hne : zoneOf spp ftl req.cmd ≠ 0)
    (hin : LbaInRange ftl req.cmd) (hlen : req.cmd.length < 2^16) :
    Sat (znsWriteZrwa clk spp ftl req ret) (fun out => out.ftl = ftl) Fault.Harmless := by
  unfold znsWriteZrwa
  simp only [pure_eq_ok]
  split
  · exact badAddress_harmless
  rename_i hz
  obtain ⟨status, hstatus, hrefuse⟩ := admitZrwaWrite_refused k (Nat.lt_of_not_le hz) hne hv
    (k.in_range_lt hin) (show 0 < nrLbasFromRwCmd req.cmd ∧ nrLbasFromRwCmd req.cmd ≤ 2^16 from
      ⟨Nat.succ_pos _, hlen⟩)
  change admitZrwaWrite spp ftl (lbaToZone spp ftl.zp req.cmd.slba) _ _ = _ at hrefuse
  rw [hrefuse, ok_bind]
  simp only
  rw [if_pos hstatus]
  exact rfl

theorem znsWritePlain_off (k : ZrwaOff spp ftl) (hmax : 0 < spp.maxChXferSize)
    (hfirst : (ftl.zoneDescs 0).zrwav = false) {req : ZnsRequest} {ret : NvmevResult}
    (hv : (ftl.zoneDescs (zoneOf spp ftl req.cmd)).zrwav = false) (hlen : req.cmd.length < 2^16) :
    Sat (znsWritePlain clk spp ftl req ret)
      (fun out => ZrwaOff spp out.ftl ∧ (out.ftl.zoneDescs 0).zrwav = false) Fault.Harmless := by
  have hsat : Sat (znsWritePlain clk spp ftl req ret) _ _ := znsWritePlain_harmless k.perf hmax
  cases hx : znsWritePlain clk spp ftl req ret with
  | error e => exact hsat.of_error hx
  | ok out =>
    have hperf := hsat.of_ok hx
    obtain ⟨hz, hcase⟩ := znsWritePlain_cases hx
    cases hcase with
    | refused short => exact ⟨k, hfirst⟩
    | rejected room failed =>
      have heq := admission_rejected k.ok hz failed
      have hd : (admission spp ftl req.cmd).1.zoneDescs = ftl.zoneDescs := by
        rw [heq]
        exact charged_zoneDescs _
      refine ⟨k.idle ?_ ?_ hd hperf, ?_⟩
      · simp only [heq]
        exact charged_zp _
      · simp only [heq]
        exact ZnsFtl.setBuffer_resInfos _ _ _
      · simp only [hd]
        exact hfirst
    | written room passed pages =>
      have w := zoneWritten_of k.ok hlen hz hv passed
      obtain ⟨s, hs, hd⟩ := (w _).zone
      refine ⟨k.step (w _).ok (w _).zp hperf (fun z hz' => ?_), ?_⟩
      · by_cases hne : z = zoneOf spp ftl req.cmd
        · subst hne
          rw [hd]
          refine ⟨rfl, fun h => ?_⟩
          rcases h with he | he
          · -- a written zone is full or open
            dsimp only at he
            split at he
            · cases he
            · rcases hs with rfl | rfl
              · cases he
              · cases he
          · exact absurd (he.symm.trans hv) (by decide)
        · rw [(w _).others z hne]
          exact ⟨rfl, k.start z hz'⟩
      · by_cases hne : 0 = zoneOf spp ftl req.cmd
        · exact (congrArg (fun z => ZoneDescriptor.zrwav (ZnsFtl.zoneDescs _ z)) hne).trans
            ((congrArg ZoneDescriptor.zrwav hd).trans hv)
        · rw [(w _).others 0 hne]
          exact hfirst

theorem znsWrite_off (k : ZrwaOff spp ftl) (hmax : 0 < spp.maxChXferSize)
    (hfirst : (ftl.zoneDescs 0).zrwav = false) {req : ZnsRequest} {ret : NvmevResult}
    (hin : LbaInRange ftl req.cmd) (hlen : req.cmd.length < 2^16) :
    Sat (znsWrite clk spp ftl req ret)
      (fun out => ZrwaOff spp out.ftl ∧ (out.ftl.zoneDescs 0).zrwav = false) Fault.Harmless := by
  unfold znsWrite
  rw [k.ok.zoned.lpnToZone_eq]
  simp only
  split
  · exact badAddress_harmless
  split
  · rename_i hv
    exact znsWritePlain_off k hmax hfirst hv hlen
  · rename_i hv
    replace hv : (ftl.zoneDescs (zoneOf spp ftl req.cmd)).zrwav = true := Bool.eq_true_of_not_eq_false hv
    have hne : zoneOf spp ftl req.cmd ≠ 0 := by
      intro he
      rw [he, hfirst] at hv
      cases hv
    refine (znsWriteZrwa_refused k hv hne hin hlen).mono ?_ (fun e h => h)
    intro out hout
    rw [hout]
    exact ⟨k, hfirst⟩

/-- One command of any kind, while the first zone has no random write area. -/
theorem znsProcNvmeIoCmd_off (k : ZrwaOff spp ftl) (hmax : 0 < spp.maxChXferSize)
    (hfirst : (ftl.zoneDescs 0).zrwav = false) {garbage : Nat} {req : ZnsRequest} {ret : NvmevResult}
    (hin : IsWrite req.cmd → LbaInRange ftl req.cmd) (hlen : req.cmd.length < 2^16) :
    Sat (znsProcNvmeIoCmd clk spp garbage ftl req ret)
      (fun out => ZrwaOff spp out.ftl ∧ ((out.ftl.zoneDescs 0).zrwav = true ↔ GrantsFirst spp ftl req.cmd))
      Fault.Harmless := by
  have hno : ∀ d : ZoneDescriptor, d.zrwav = false → ¬ AsksZrwa req.cmd →
      (d.zrwav = true ↔ GrantsFirst spp ftl req.cmd) := by
    intro d hd hask
    constructor
    · intro h
      rw [hd] at h
      cases h
    · exact fun h => absurd h.1 hask
  unfold znsProcNvmeIoCmd
  cases hop : req.cmd.opcode with
  | write =>
    refine (znsWrite_off k hmax hfirst (hin (.inl hop)) hlen).mono ?_ (fun e h => h)
    exact fun out h => ⟨h.1, hno _ h.2 (by simp [AsksZrwa, hop])⟩
  | zoneAppend =>
    refine (znsWrite_off k hmax hfirst (hin (.inr hop)) hlen).mono ?_ (fun e h => h)
    exact fun out h => ⟨h.1, hno _ h.2 (by simp [AsksZrwa, hop])⟩
  | read =>
    have hsat : Sat (znsRead clk spp ftl req) _ _ := znsRead_harmless k.perf hmax
    cases hx : znsRead clk spp ftl req with
    | error e => exact hsat.of_error hx
    | ok out =>
      obtain ⟨hp, hr, hd, _⟩ := znsRead_idle hx
      refine ⟨k.idle hp hr hd (hsat.of_ok hx), hno _ ?_ (by simp [AsksZrwa, hop])⟩
      rw [hd]
      exact hfirst
  | flush => exact ⟨k.idle rfl rfl rfl ⟨k.perf.ch, k.perf.pcie⟩, hno _ hfirst (by simp [AsksZrwa, hop])⟩
  | zoneMgmtSend =>
    have hsat : Sat (znsZmgmtSend spp garbage ftl req.cmd.selectAll req.cmd.slba req.cmd.zsa
      req.cmd.zsaso) _ _ :=
      znsZmgmtSend_off k hfirst
    cases hx : znsZmgmtSend spp garbage ftl req.cmd.selectAll req.cmd.slba req.cmd.zsa req.cmd.zsaso with
    | error e =>
      rw [hx] at hsat
      exact hsat
    | ok r =>
      refine ⟨hsat.of_ok hx, ?_⟩
      by_cases hask : req.cmd.zsa = .open ∧ req.cmd.zsaso ≠ 0
      · rw [hask.1] at hx
        rw [znsZmgmtSend_open_first k hfirst hask.2 hx]
        unfold GrantsFirst AsksZrwa zoneOf
        simp [hop, hask]
      · refine hno _ ?_ (fun h => hask h.2)
        exact (znsZmgmtSend_sent k.ok hx).zrwav hask 0 hfirst
  | zoneMgmtRecv => exact ⟨k, hno _ hfirst (by simp [AsksZrwa, hop])⟩
  | other => exact ⟨k, hno _ hfirst (by simp [AsksZrwa, hop])⟩

theorem znsInitNamespace_off {cfg : ZnsConfig} {old : ZnsParams} {size : Nat} (hs : cfg.Sound)
    (h : znsInitNamespace cfg old size = .ok (spp, ftl)) (hzrwa : ftl.zp.lbasPerZrwa = 0)
    (hfg : ftl.zp.lbasPerZrwafg = 0) : ZrwaOff spp ftl := by
  have hperf := (znsInitNamespace_sound hs h).2.2
  have hok := (znsInitNamespace_ok h).2.1
  unfold znsInitNamespace at h
  obtain ⟨spp', hspp, h⟩ := bind_eq_ok.mp h
  obtain ⟨zp, hzp, h⟩ := bind_eq_ok.mp h
  cases h
  have hsize : zp.zoneSize < 2^32 := by
    unfold znsInitParams at hzp
    obtain ⟨_, hzp⟩ := divisor_bind_ok.mp hzp
    obtain ⟨_, hzp⟩ := divisor_bind_ok.mp hzp
    obtain ⟨_, hzp⟩ := nvmevAssert_bind_ok.mp hzp
    obtain ⟨_, hzp⟩ := nvmevAssert_bind_ok.mp hzp
    cases hzp
    exact Nat.mod_lt _ (by decide)
  refine ⟨hok, hsize, hzrwa, hfg, fun z hz => ?_, fun z _ _ => rfl, hperf⟩
  exact u64_eq (Nat.lt_trans (zone_lbas_lt hsize (Nat.lt_trans hz hok.zoned.zones_lt)) (by decide))

/-- The writes of a run are in range, and no command grants the first zone an area. -/
def KeepsFirst (spp : SsdParams) (ftl : ZnsFtl) (cmd : ZnsCommand) : Prop :=
  (IsWrite cmd → LbaInRange ftl cmd) ∧ ¬ GrantsFirst spp ftl cmd

theorem ZnsReachable.zrwaOff {cfg : ZnsConfig} {old : ZnsParams} {size : Nat} (hs : cfg.Sound)
    (h : ZnsReachable clk cfg old size spp (KeepsFirst spp) ftl) (hzrwa : ftl.zp.lbasPerZrwa = 0)
    (hfg : ftl.zp.lbasPerZrwafg = 0) :
    (ZrwaOff spp ftl ∧ (ftl.zoneDescs 0).zrwav = false) ∧ Divisors spp ftl.zp ∧ Rated spp := by
  induction h with
  | init h =>
    obtain ⟨hdiv, hrated, -⟩ := znsInitNamespace_sound hs h
    exact ⟨⟨znsInitNamespace_off hs h hzrwa hfg, (znsInitNamespace_ok h).2.2.2 0⟩, hdiv, hrated⟩
  | command before allowed length h ih =>
    obtain ⟨leak, hok⟩ := before.ok
    have hp := (znsProcNvmeIoCmd_kept hok length h).zp
    rw [hp] at hzrwa hfg ⊢
    obtain ⟨⟨k, hfirst⟩, hdiv, hrated⟩ := ih hzrwa hfg
    obtain ⟨k', hv⟩ := (znsProcNvmeIoCmd_off k hrated.xfer hfirst allowed.1 length).of_ok h
    exact ⟨⟨k', Bool.eq_false_of_not_eq_true (fun h => allowed.2 (hv.mp h))⟩, hdiv, hrated⟩
  | release before ref n ih =>
    rw [ZnsFtl.setBuffer_zp] at hzrwa hfg ⊢
    obtain ⟨⟨k, hfirst⟩, hdiv, hrated⟩ := ih hzrwa hfg
    refine ⟨⟨k.idle (by simp) (by simp) (by simp) (by simpa using k.perf), ?_⟩, hdiv, hrated⟩
    rw [ZnsFtl.setBuffer_zoneDescs]
    exact hfirst

/-- The explicit flush of LBA 0. -/
def flushLba0 : ZnsRequest := ⟨⟨.zoneMgmtSend, 0, 0, false, .flushExplZrwa, false, 0, 0, 0⟩, 1, 0⟩

theorem flushLba0_traps (k : ZrwaOff spp ftl) (hz : 0 < ftl.zp.nrZones)
    (hv : (ftl.zoneDescs 0).zrwav = true) (garbage : Nat) (ret : NvmevResult) :
    znsProcNvmeIoCmd clk spp garbage ftl flushLba0 ret = .error .divideError := by
  have hzone : lbaToZone spp ftl.zp 0 = 0 := by
    unfold lbaToZone u32
    rw [Nat.zero_div, Nat.zero_mod]
  have hsend : zmgmtSend spp garbage ftl 0 .flushExplZrwa 0 = .error .divideError := by
    unfold zmgmtSend
    rw [if_neg (by decide), hzone, if_neg (Nat.not_le.mpr hz)]
    exact zmgmtSendFlushExplicitZrwa_first k hz hv
  change (zmgmtSend spp garbage ftl 0 .flushExplZrwa 0 >>= _) = _
  rw [hsend]
  rfl

/-- In a shipped build no command traps as long as no open has granted the first zone a random
write area, and from a command that does so a trap is one command away. -/
theorem traps_iff_grantsFirst {cfg : ZnsConfig} {old : ZnsParams} {size garbage : Nat} {req : ZnsRequest}
    {ret : NvmevResult} (hcfg : cfg ∈ znsConfigs)
    (h : ZnsReachable clk cfg old size spp (KeepsFirst spp) ftl) (hzrwa : ftl.zp.lbasPerZrwa = 0)
    (hfg : ftl.zp.lbasPerZrwafg = 0) (hin : IsWrite req.cmd → LbaInRange ftl req.cmd)
    (hlen : req.cmd.length < 2^16) :
    Divisors spp ftl.zp ∧ ¬ Traps (znsProcNvmeIoCmd clk spp garbage ftl req ret) ∧
    ∀ out, znsProcNvmeIoCmd clk spp garbage ftl req ret = .ok out →
      ((∃ garbage' req' ret', (IsWrite req'.cmd → LbaInRange out.ftl req'.cmd) ∧ req'.cmd.length < 2^16 ∧
        Traps (znsProcNvmeIoCmd clk spp garbage' out.ftl req' ret')) ↔ GrantsFirst spp ftl req.cmd) := by
  obtain ⟨⟨k, hfirst⟩, hdiv, hrated⟩ := h.zrwaOff (znsConfigs_sound hcfg) hzrwa hfg
  have hsat : Sat (znsProcNvmeIoCmd clk spp garbage ftl req ret) _ _ :=
    znsProcNvmeIoCmd_off k hrated.xfer hfirst hin hlen
  refine ⟨hdiv, not_traps hsat, fun out hout => ?_⟩
  obtain ⟨k', hv⟩ := hsat.of_ok hout
  rw [← hv]
  constructor
  · rintro ⟨garbage', req', ret', hin', hlen', htrap⟩
    by_contra hnv
    have hno : (out.ftl.zoneDescs 0).zrwav = false := Bool.eq_false_of_not_eq_true hnv
    exact not_traps (znsProcNvmeIoCmd_off k' hrated.xfer hno hin' hlen') htrap
  · intro hv'
    have hz : 0 < out.ftl.zp.nrZones := by
      have hp := (znsProcNvmeIoCmd_kept k.ok hlen hout).zp
      rw [hp]
      exact (hv.mp hv').2.1
    exact ⟨0, flushLba0, ⟨0, 0⟩, fun hw => by simp [IsWrite, flushLba0] at hw, by decide, .divideError,
      flushLba0_traps k' hz hv' 0 ⟨0, 0⟩, .inl rfl⟩

def grantZone1 : ZnsRequest := ⟨⟨.zoneMgmtSend, 2^22, 0, false, .open, false, 1, 0, 0⟩, 1, 0⟩

theorem traps_iff_grantsFirst_opened : ∃ spp ftl,
    ZnsReachable (fun _ => 0) wdZn540 zeroedParams (2^32) spp (KeepsFirst spp) ftl ∧
    (ftl.zoneDescs 1).zrwav = true ∧
    ¬ Traps (znsProcNvmeIoCmd (fun _ => 0) spp 0 ftl flushLba0 ⟨0, 0⟩) := by
  have hrun : check (fun (r : (SsdParams × ZnsFtl) × ZnsOutcome) =>
      decide ((r.2.ftl.zoneDescs 1).zrwav = true) && decide (zoneOf r.1.1 r.1.2 grantZone1.cmd = 1) &&
      decide (r.2.ftl.zp.lbasPerZrwa = 0) && decide (r.2.ftl.zp.lbasPerZrwafg = 0)) (do
      let ns ← znsInitNamespace wdZn540 zeroedParams (2^32)
      let out ← znsProcNvmeIoCmd (fun _ => 0) ns.1 0 ns.2 grantZone1 ⟨0, 0⟩
      return (ns, out)) = true := by decide +kernel
  obtain ⟨⟨⟨spp, ftl⟩, out⟩, hr, hp⟩ := exists_of_check hrun
  obtain ⟨ns, hinit, hr⟩ := bind_eq_ok.mp hr
  obtain ⟨out', hproc, hr⟩ := bind_eq_ok.mp hr
  cases hr
  simp only [Bool.and_eq_true, decide_eq_true_eq] at hp
  obtain ⟨⟨⟨hv, hzone⟩, hzrwa⟩, hfg⟩ := hp
  have hkeeps : KeepsFirst spp ftl grantZone1.cmd := by
    refine ⟨fun hw => by simp [IsWrite, grantZone1] at hw, fun hg => ?_⟩
    rcases hg.2.2.1 with hall | hfirst
    · cases hall
    · rw [hzone] at hfirst
      cases hfirst
  have h₀ : ZnsReachable (fun _ => 0) wdZn540 zeroedParams (2^32) spp (KeepsFirst spp) ftl := .init hinit
  have h := h₀.command hkeeps (by decide) hproc
  exact ⟨spp, out.ftl, h, hv, (traps_iff_grantsFirst (by decide) h hzrwa hfg
    (fun hw => by simp [IsWrite, flushLba0] at hw) (by decide)).2.1⟩

/-- Open the first zone with the option and flush LBA 0: a remainder by zero. -/
theorem flush_divides_by_zero : ∃ spp ftl,
    ZnsReachable (fun _ => 0) wdZn540 zeroedParams (2^32) spp (fun ftl cmd => LbaInRange ftl cmd) ftl ∧
    ftl.zp.lbasPerZrwa = 0 ∧ ftl.zp.lbasPerZrwafg = 0 ∧ LbaInRange ftl flushLba0.cmd ∧
    znsProcNvmeIoCmd (fun _ => 0) spp 0 ftl flushLba0 ⟨0, 0⟩ = .error .divideError := by
  have h₀ : ZnsReachable (fun _ => 0) wdZn540 zeroedParams (2^32) _ LbaInRange _ := .init rfl
  have h₁ := h₀.command (by unfold LbaInRange; decide) (by decide)
    (show znsProcNvmeIoCmd (fun _ => 0) _ 0 _ ⟨⟨.zoneMgmtSend, 0, 0, false, .open, false, 1, 0, 0⟩, 1, 0⟩
      ⟨0, 0⟩ = .ok _ from rfl)
  exact ⟨_, _, h₁, rfl, rfl, (by unfold LbaInRange; decide), rfl⟩

end NVMeVirt
