import NVMeVirt.ZnsHistory
import NVMeVirt.Lib.ZonedDevice

/-!
# The zoned namespace as a zoned device

Without a random write area, what a host sees of a zoned namespace is a device of zones that know
nothing of each other: no command is ever refused for want of an open or active zone.
-/

namespace NVMeVirt
set_option autoImplicit false
open Outcome

variable {clk : Nat → Nat} {spp : SsdParams} {ftl ftl' : ZnsFtl} {zid leak : Nat}

def ZoneState.condition : ZoneState → ZonedDevice.Condition
  | .empty => .empty
  | .openedImpl => .implicit
  | .openedExpl => .explicit
  | .closed => .closed
  | .full | .readOnly | .offline => .full

def ZoneDescriptor.zone (d : ZoneDescriptor) : ZonedDevice.Zone := ⟨d.state.condition, d.wp - d.zslba⟩

def ZnsFtl.device (ftl : ZnsFtl) : ZonedDevice.Device := fun z => (ftl.zoneDescs z).zone

def znsGeometry (spp : SsdParams) (zp : ZnsParams) : ZonedDevice.Geometry where
  cap := lbasPerZone zp
  nr := zp.nrZones
  unit n := decide (lbaToByte n % spp.writeUnitSize = 0)

def replyStatus : ZonedDevice.Reply → Nat
  | .success => nvmeScSuccess
  | .invalidTransition => nvmeScZnsInvalidTransition
  | .invalidOperation => nvmeScZnsInvalidZoneOperation
  | .invalidWrite => nvmeScZnsInvalidWrite
  | .boundary => nvmeScZnsErrBoundary
  | .full => nvmeScZnsErrFull

def zoneAction : ZoneSendAction → Option ZonedDevice.Action
  | .close => some .close
  | .finish => some .finish
  | .open => some .open
  | .reset => some .reset
  | .offline => some .offline
  | .flushExplZrwa => some .flush
  | .other => none

def hostCommand (spp : SsdParams) (zp : ZnsParams) (cmd : ZnsCommand) : Option ZonedDevice.Command :=
  match cmd.opcode with
  | .write => some (.write (lbaToZone spp zp cmd.slba) cmd.slba (nrLbasFromRwCmd cmd))
  | .zoneAppend => some (.append (lbaToZone spp zp cmd.slba) (nrLbasFromRwCmd cmd))
  | .zoneMgmtSend => (zoneAction cmd.zsa).map fun action =>
    if cmd.selectAll then .manageAll action else .manage (lbaToZone spp zp cmd.slba) action
  | _ => none

theorem device_congr (h : ftl'.zoneDescs = ftl.zoneDescs) : ftl'.device = ftl.device := by
  unfold ZnsFtl.device
  rw [h]

theorem device_update {d : ZoneDescriptor} (h : ftl'.zoneDescs = Function.update ftl.zoneDescs zid d) :
    ftl'.device = Function.update ftl.device zid d.zone := by
  unfold ZnsFtl.device
  rw [h]
  funext z
  by_cases hz : z = zid
  · rw [hz, Function.update_self, Function.update_self]
  · rw [Function.update_of_ne hz, Function.update_of_ne hz]

/-- What a run without random write areas keeps. -/
structure PlainZones (spp : SsdParams) (ftl : ZnsFtl) (leak : Nat) : Prop where
  ok : ZnsOk spp ftl leak
  pointers : PointersOk spp ftl
  plain : ∀ z, (ftl.zoneDescs z).zrwav = false

theorem ZnsOk.room (k : ZnsOk spp ftl leak) (hz : zid < ftl.zp.nrZones) {t : ResType} (ht : t ≠ .zrwaZone)
    (h : holds t (ftl.zoneDescs zid) = false) :
    (ftl.resInfos t).acquiredCnt < (ftl.resInfos t).totalCnt := by
  have hlt := Census.tally_lt (p := fun z => holds t (ftl.zoneDescs z)) hz h
  rw [k.ledger.total, k.ledger.count, leakOf, if_neg ht, Nat.add_zero]
  exact hlt

theorem ZnsOk.notFull (k : ZnsOk spp ftl leak) (hz : zid < ftl.zp.nrZones) {t : ResType} (ht : t ≠ .zrwaZone)
    (h : holds t (ftl.zoneDescs zid) = false) : ¬ ftl.isZoneResourceFull t = true := by
  rw [ZnsFtl.isZoneResourceFull_iff]
  exact Nat.ne_of_lt (k.room hz ht h)

structure Follows (ftl : ZnsFtl) (zid : Nat) (r : ZnsFtl × Nat)
    (answer : ZonedDevice.Zone × ZonedDevice.Reply) : Prop where
  device : r.1.device = Function.update ftl.device zid answer.1
  status : r.2 = replyStatus answer.2

theorem Follows.stay (reply : ZonedDevice.Reply) :
    Follows ftl zid (ftl, replyStatus reply) (ftl.device zid, reply) :=
  ⟨(Function.update_eq_self zid ftl.device).symm, rfl⟩

theorem Follows.change (s : ZoneState)
    (hd : ftl'.zoneDescs = Function.update ftl.zoneDescs zid { ftl.zoneDescs zid with state := s }) :
    Follows ftl zid (ftl', nvmeScSuccess) ({ ftl.device zid with cond := s.condition }, .success) :=
  ⟨device_update hd, rfl⟩

theorem device_cond {s : ZoneState} (h : (ftl.zoneDescs zid).state = s) :
    (ftl.device zid).cond = s.condition := congrArg ZoneState.condition h

theorem zmgmtSendCloseZone_follows (k : ZnsOk spp ftl leak) (hz : zid < ftl.zp.nrZones) :
    Follows ftl zid (zmgmtSendCloseZone ftl zid) ((ftl.device zid).act .close) := by
  have hu := (k.zones zid hz).usable
  unfold zmgmtSendCloseZone ZonedDevice.Zone.act
  cases hs : (ftl.zoneDescs zid).state with
  | openedImpl | openedExpl =>
    rw [device_cond hs]
    exact .change .closed rfl
  | closed =>
    rw [device_cond hs]
    refine .change .closed ?_
    rw [← hs]
    exact (Function.update_eq_self _ _).symm
  | empty | full =>
    rw [device_cond hs]
    exact .stay .invalidTransition
  | readOnly => exact absurd hs hu.1
  | offline => exact absurd hs hu.2

theorem zmgmtSendFinishZone_follows (k : ZnsOk spp ftl leak) (hz : zid < ftl.zp.nrZones) :
    Follows ftl zid (zmgmtSendFinishZone ftl zid) ((ftl.device zid).act .finish) := by
  have hu := (k.zones zid hz).usable
  have hleave : ∀ (m : ZnsFtl) (zrwa : Bool), m.zoneDescs = ftl.zoneDescs →
      Follows ftl zid ((leaveActive m zrwa).changeZoneState zid .full, nvmeScSuccess)
        ((ftl.device zid).act .finish) := by
    intro m zrwa hm
    have hd : (leaveActive m zrwa).zoneDescs = ftl.zoneDescs := by
      unfold leaveActive
      split <;> exact hm
    refine .change .full ?_
    rw [ZnsFtl.changeZoneState_zoneDescs, hd]
  unfold zmgmtSendFinishZone
  cases hs : (ftl.zoneDescs zid).state with
  | openedImpl | openedExpl => exact hleave _ _ rfl
  | closed => exact hleave _ _ rfl
  | empty => exact .change .full rfl
  | full =>
    refine .change .full ?_
    rw [← hs]
    exact (Function.update_eq_self _ _).symm
  | readOnly => exact absurd hs hu.1
  | offline => exact absurd hs hu.2

theorem zmgmtSendResetZone_follows (k : ZnsOk spp ftl leak) (hz : zid < ftl.zp.nrZones) :
    Follows ftl zid (zmgmtSendResetZone ftl zid) ((ftl.device zid).act .reset) := by
  obtain ⟨hsuccess, _, hd⟩ := zmgmtSendResetZone_reset (g := False) k hz
  refine ⟨?_, hsuccess⟩
  rw [device_update hd]
  unfold ZoneDescriptor.zone cleared
  rw [Nat.sub_self]
  rfl

theorem openClosedZone_follows {m : ZnsFtl} (hm : m.zoneDescs = ftl.zoneDescs)
    (h : (m.resInfos .openZone).acquiredCnt < (m.resInfos .openZone).totalCnt) :
    Follows ftl zid (openClosedZone m zid) ({ ftl.device zid with cond := .explicit }, .success) := by
  rw [openClosedZone_avail h]
  refine .change .openedExpl ?_
  rw [ZnsFtl.changeZoneState_zoneDescs, ZnsFtl.setCnt_zoneDescs, hm]

theorem zmgmtSendOpenZone_follows (k : ZnsOk spp ftl leak) (hz : zid < ftl.zp.nrZones) :
    Follows ftl zid (zmgmtSendOpenZone ftl zid 0) ((ftl.device zid).act .open) := by
  have hu := (k.zones zid hz).usable
  unfold zmgmtSendOpenZone ZonedDevice.Zone.act
  cases hs : (ftl.zoneDescs zid).state with
  | empty =>
    have hidle := fun t => idle_holds (t := t) (not_active_empty hs)
    have hactive := k.room hz (t := .activeZone) (by decide) (hidle _)
    have hopen := k.room hz (t := .openZone) (by decide) (hidle _)
    rw [device_cond hs]
    dsimp only
    rw [if_neg (k.notFull hz (by decide) (hidle _)), if_neg (k.notFull hz (by decide) (hidle _)),
      if_neg (not_not_intro rfl), ZnsFtl.acquireZoneResource_avail hactive]
    refine openClosedZone_follows rfl ?_
    rw [ZnsFtl.setCnt_other _ _ _ (by decide)]
    exact hopen
  | closed =>
    rw [device_cond hs]
    exact openClosedZone_follows rfl (k.room hz (by decide) (closed_holds hs).1)
  | openedImpl =>
    rw [device_cond hs]
    exact .change .openedExpl rfl
  | openedExpl =>
    rw [device_cond hs]
    refine .change .openedExpl ?_
    rw [← hs]
    exact (Function.update_eq_self _ _).symm
  | full =>
    rw [device_cond hs]
    exact .stay .invalidTransition
  | readOnly => exact absurd hs hu.1
  | offline => exact absurd hs hu.2

theorem zmgmtSendOfflineZone_follows (k : ZnsOk spp ftl leak) (hz : zid < ftl.zp.nrZones) :
    Follows ftl zid (zmgmtSendOfflineZone ftl zid) ((ftl.device zid).act .offline) := by
  have hu := (k.zones zid hz).usable
  unfold zmgmtSendOfflineZone
  cases hs : (ftl.zoneDescs zid).state with
  | readOnly => exact absurd hs hu.1
  | offline => exact absurd hs hu.2
  | empty | openedImpl | openedExpl | closed | full => exact .stay .invalidTransition

theorem zmgmtSend_follows (k : PlainZones spp ftl leak) {garbage slba option : Nat} {action : ZoneSendAction}
    {a : ZonedDevice.Action} {r : ZnsFtl × Nat} (ha : zoneAction action = some a)
    (hask : ¬ (action = .open ∧ option ≠ 0)) (h : zmgmtSend spp garbage ftl slba action option = .ok r) :
    Follows ftl (lbaToZone spp ftl.zp slba) r ((ftl.device (lbaToZone spp ftl.zp slba)).act a) := by
  unfold zmgmtSend at h
  simp only [pure_eq_ok] at h
  split at h
  · rename_i hother
    rw [hother] at ha
    cases ha
  split at h
  · cases h
  rename_i hz
  replace hz := Nat.lt_of_not_le hz
  cases action with
  | close =>
    cases h
    cases ha
    exact zmgmtSendCloseZone_follows k.ok hz
  | finish =>
    cases h
    cases ha
    exact zmgmtSendFinishZone_follows k.ok hz
  | «open» =>
    cases h
    cases ha
    obtain rfl : option = 0 := by
      by_contra hne
      exact hask ⟨rfl, hne⟩
    exact zmgmtSendOpenZone_follows k.ok hz
  | reset =>
    cases h
    cases ha
    exact zmgmtSendResetZone_follows k.ok hz
  | offline =>
    cases h
    cases ha
    exact zmgmtSendOfflineZone_follows k.ok hz
  | flushExplZrwa =>
    simp only [zmgmtSendFlushExplicitZrwa, k.plain, if_true, pure_eq_ok] at h
    cases h
    cases ha
    exact .stay .invalidOperation
  | other => cases ha

theorem PlainZones.sent {g : Prop} (k : PlainZones spp ftl leak) (h : Sent g spp ftl ftl' leak) (hg : ¬ g) :
    PlainZones spp ftl' leak :=
  ⟨h.ok, h.pointers k.pointers, fun z => h.zrwav hg z (k.plain z)⟩

/-- `select_all`, as far as the loop has come. -/
structure ManagedUpto (spp : SsdParams) (ftl m : ZnsFtl) (leak n : Nat) (a : ZonedDevice.Action) : Prop where
  zones : PlainZones spp m leak
  zp : m.zp = ftl.zp
  device : m.device = fun z => if z < n then ((ftl.device z).act a).1 else ftl.device z

theorem ManagedUpto.step {m : ZnsFtl} {n garbage option : Nat} {action : ZoneSendAction}
    {a : ZonedDevice.Action} {r : ZnsFtl × Nat} (h : ManagedUpto spp ftl m leak n a) (hn : n < ftl.zp.nrZones)
    (ha : zoneAction action = some a) (hask : ¬ (action = .open ∧ option ≠ 0))
    (hr : zmgmtSend spp garbage m (zoneToSlba spp m.zp n) action option = .ok r) :
    ManagedUpto spp ftl r.1 leak (n + 1) a := by
  have hs := zmgmtSend_sent h.zones.ok hr
  have hf := (zmgmtSend_follows h.zones ha hask hr).device
  rw [h.zones.pointers.addressable.lbaToZone_zoneToSlba (by rwa [h.zp]), h.device] at hf
  dsimp only at hf
  rw [if_neg (Nat.lt_irrefl n)] at hf
  refine ⟨h.zones.sent hs hask, hs.zp.trans h.zp, ?_⟩
  rw [hf]
  funext z
  by_cases hzn : z = n
  · subst hzn
    rw [Function.update_self, if_pos (Nat.lt_succ_self z)]
  · rw [Function.update_of_ne hzn]
    by_cases hlt : z < n
    · rw [if_pos hlt, if_pos (Nat.lt_succ_of_lt hlt)]
    · rw [if_neg hlt, if_neg (by omega)]

theorem znsZmgmtSend_all_follows (k : PlainZones spp ftl leak) {garbage slba option : Nat}
    {action : ZoneSendAction} {a : ZonedDevice.Action} {r : ZnsFtl × Nat} (ha : zoneAction action = some a)
    (hask : ¬ (action = .open ∧ option ≠ 0))
    (h : znsZmgmtSend spp garbage ftl true slba action option = .ok r) :
    (r.1.device, r.2) = (((znsGeometry spp ftl.zp).step ftl.device (.manageAll a)).1, nvmeScSuccess) := by
  unfold znsZmgmtSend at h
  obtain ⟨m, hm, hr⟩ := bind_eq_ok.mp h
  cases hr
  have hall := Sat.of_ok (P := fun s => ManagedUpto spp ftl s leak ftl.zp.nrZones a)
    (upto_sat (Q := fun _ => True) (fun n s => ManagedUpto spp ftl s leak n a) _ ⟨k, rfl, rfl⟩ ?_) hm
  · rw [hall.device]
    rfl
  · intro n hn s hs
    cases hx : zmgmtSend spp garbage s (zoneToSlba spp s.zp n) action option with
    | error e => trivial
    | ok r => exact hs.step hn ha hask hx

/-- The 32 bits of the zone index do not matter for the ends of a range. -/
theorem checkBoundaryError_iff (g : Zoned spp ftl.zp) {lba n : Nat} (hpos : 0 < n) (hn : n ≤ 2^16)
    (hfit : lba + n ≤ 2^64) : checkBoundaryError spp ftl.zp lba n = true ↔
      lba / lbasPerZone ftl.zp = (lba + n - 1) / lbasPerZone ftl.zp := by
  have hlast : u64 (lba + n + (2^64 - 1)) = lba + n - 1 := by
    unfold u64
    omega
  have hle : lba / lbasPerZone ftl.zp ≤ (lba + n - 1) / lbasPerZone ftl.zp :=
    Nat.div_le_div_right (by omega)
  have hspan : (lba + n - 1) / lbasPerZone ftl.zp < lba / lbasPerZone ftl.zp + n := by
    have hpos' := g.lbas_pos
    have hlt := Nat.lt_div_mul_add hpos' (a := lba)
    refine (Nat.div_lt_iff_lt_mul hpos').mpr ?_
    have hmul : n ≤ n * lbasPerZone ftl.zp := Nat.le_mul_of_pos_right n hpos'
    rw [Nat.add_mul]
    obtain ⟨m, rfl⟩ := Nat.exists_eq_succ_of_ne_zero (Nat.ne_of_gt hpos)
    have hm : m ≤ m * lbasPerZone ftl.zp := Nat.le_mul_of_pos_right m hpos'
    rw [Nat.succ_mul]
    omega
  unfold checkBoundaryError lbaToZone
  rw [g.secsz, hlast, decide_eq_true_iff]
  unfold u32
  change _ % _ = _ % _ ↔ lba / (ftl.zp.zoneSize / lbaSize) = _
  unfold lbasPerZone at hle hspan ⊢
  omega

theorem PlainZones.wp (k : PlainZones spp ftl leak) (hz : zid < ftl.zp.nrZones) :
    (ftl.zoneDescs zid).wp = zid * lbasPerZone ftl.zp + (ftl.device zid).filled := by
  have hlo := (k.pointers.pointers zid hz).lower (k.plain zid)
  change _ = _ + ((ftl.zoneDescs zid).wp - (ftl.zoneDescs zid).zslba)
  rw [k.pointers.zslba zid hz] at hlo ⊢
  omega

/-- What `__zns_write` does before it moves the write pointer. -/
structure AdmitsLike (spp : SsdParams) (ftl : ZnsFtl) (zid lba n : Nat) : Prop where
  status : (admitWrite spp ftl zid lba n).2 =
    replyStatus ((ftl.device zid).write (znsGeometry spp ftl.zp) (zid * lbasPerZone ftl.zp) lba n).2
  opened : (admitWrite spp ftl zid lba n).2 = nvmeScSuccess →
    ((ftl.device zid).write (znsGeometry spp ftl.zp) (zid * lbasPerZone ftl.zp) lba n) =
      ((ftl.device zid).advance (lbasPerZone ftl.zp) n, .success) ∧
    (admitWrite spp ftl zid lba n).1.zoneDescs = Function.update ftl.zoneDescs zid
      { ftl.zoneDescs zid with
        state := if (ftl.zoneDescs zid).state = .openedExpl then .openedExpl else .openedImpl }

theorem openClosedForWrite_zoneDescs {m : ZnsFtl}
    (h : (m.resInfos .openZone).acquiredCnt < (m.resInfos .openZone).totalCnt) :
    (openClosedForWrite m zid).2 = nvmeScSuccess ∧ (openClosedForWrite m zid).1.zoneDescs =
      Function.update m.zoneDescs zid { m.zoneDescs zid with state := .openedImpl } := by
  rw [openClosedForWrite_avail h]
  exact ⟨rfl, rfl⟩

theorem openForWrite_opens (k : PlainZones spp ftl leak) (hz : zid < ftl.zp.nrZones)
    (hfull : (ftl.zoneDescs zid).state ≠ .full) {lba : Nat} (hwp : lba = (ftl.zoneDescs zid).wp) :
    (openForWrite ftl zid lba).2 = nvmeScSuccess ∧
    (openForWrite ftl zid lba).1.zoneDescs = Function.update ftl.zoneDescs zid
      { ftl.zoneDescs zid with
        state := if (ftl.zoneDescs zid).state = .openedExpl then .openedExpl else .openedImpl } := by
  have hu := (k.ok.zones zid hz).usable
  unfold openForWrite
  cases hs : (ftl.zoneDescs zid).state with
  | empty =>
    have hidle := fun t => idle_holds (t := t) (not_active_empty hs)
    have hactive := k.ok.room hz (t := .activeZone) (by decide) (hidle _)
    have hopen := k.ok.room hz (t := .openZone) (by decide) (hidle _)
    have hstart := hwp.trans ((k.pointers.pointers zid hz).start (k.plain zid) hs)
    dsimp only
    rw [if_neg (not_not_intro hstart), if_neg (k.ok.notFull hz (by decide) (hidle _)),
      if_neg (k.ok.notFull hz (by decide) (hidle _)), ZnsFtl.acquireZoneResource_avail hactive]
    refine openClosedForWrite_zoneDescs ?_
    rw [ZnsFtl.setCnt_other _ _ _ (by decide)]
    exact hopen
  | closed => exact openClosedForWrite_zoneDescs (k.ok.room hz (by decide) (closed_holds hs).1)
  | openedImpl | openedExpl =>
    refine ⟨rfl, ?_⟩
    simp only [reduceCtorEq, if_true, if_false]
    rw [← hs]
    exact (Function.update_eq_self _ _).symm
  | full => exact absurd hs hfull
  | readOnly => exact absurd hs hu.1
  | offline => exact absurd hs hu.2

theorem condition_full (k : PlainZones spp ftl leak) (hz : zid < ftl.zp.nrZones) :
    (ftl.device zid).cond = .full ↔ (ftl.zoneDescs zid).state = .full := by
  have hu := (k.ok.zones zid hz).usable
  change (ftl.zoneDescs zid).state.condition = .full ↔ _
  cases hs : (ftl.zoneDescs zid).state with
  | readOnly => exact absurd hs hu.1
  | offline => exact absurd hs hu.2
  | empty | openedImpl | openedExpl | closed | full => simp [ZoneState.condition]

theorem device_write (base lba n : Nat) : (ftl.device zid).write (znsGeometry spp ftl.zp) base lba n =
    if (znsGeometry spp ftl.zp).unit n = false then (ftl.device zid, .invalidWrite)
    else if lba / lbasPerZone ftl.zp ≠ (lba + n - 1) / lbasPerZone ftl.zp then (ftl.device zid, .boundary)
    else if lba ≠ base + (ftl.device zid).filled then (ftl.device zid, .invalidWrite)
    else if (ftl.device zid).cond = .full then (ftl.device zid, .full)
    else ((ftl.device zid).advance (lbasPerZone ftl.zp) n, .success) := rfl

theorem admitWrite_admits (k : PlainZones spp ftl leak) (hz : zid < ftl.zp.nrZones) {lba n : Nat}
    (hpos : 0 < n) (hn : n ≤ 2^16) (hfit : lba + n ≤ 2^64) : AdmitsLike spp ftl zid lba n := by
  have hwp := k.wp hz
  have hcross := checkBoundaryError_iff k.ok.zoned hpos hn hfit
  have hunit : (znsGeometry spp ftl.zp).unit n = false ↔ lbaToByte n % spp.writeUnitSize ≠ 0 :=
    decide_eq_false_iff_not
  have refuse : ∀ reply : ZonedDevice.Reply, replyStatus reply ≠ nvmeScSuccess →
      admitWrite spp ftl zid lba n = (ftl, replyStatus reply) →
      ((ftl.device zid).write (znsGeometry spp ftl.zp) (zid * lbasPerZone ftl.zp) lba n).2 = reply →
      AdmitsLike spp ftl zid lba n := by
    intro reply hne hverdict hreply
    refine ⟨?_, fun hs => ?_⟩
    · rw [hverdict, hreply]
    · rw [hverdict] at hs
      exact absurd hs hne
  by_cases h₁ : lbaToByte n % spp.writeUnitSize ≠ 0
  · refine refuse .invalidWrite (by decide) ?_ ?_
    · unfold admitWrite
      rw [if_pos h₁]
      rfl
    · rw [device_write, if_pos (hunit.mpr h₁)]
  by_cases h₂ : lba / lbasPerZone ftl.zp = (lba + n - 1) / lbasPerZone ftl.zp
  swap
  · refine refuse .boundary (by decide) ?_ ?_
    · unfold admitWrite
      rw [if_neg h₁, if_pos (Bool.eq_false_iff.mpr (fun hc => h₂ (hcross.mp hc)))]
      rfl
    · rw [device_write, if_neg (fun hu => h₁ (hunit.mp hu)), if_pos h₂]
  have hinside : ¬ checkBoundaryError spp ftl.zp lba n = false := by
    rw [hcross.mpr h₂]
    decide
  by_cases h₃ : lba = (ftl.zoneDescs zid).wp
  swap
  · refine refuse .invalidWrite (by decide) ?_ ?_
    · unfold admitWrite
      rw [if_neg h₁, if_neg hinside, if_pos h₃]
      rfl
    · rw [device_write, if_neg (fun hu => h₁ (hunit.mp hu)), if_neg (not_not_intro h₂),
        if_pos (by rwa [hwp] at h₃)]
  have hverdict : admitWrite spp ftl zid lba n = openForWrite ftl zid lba := by
    unfold admitWrite
    rw [if_neg h₁, if_neg hinside, if_neg (not_not_intro h₃)]
  have hwrite : (ftl.device zid).write (znsGeometry spp ftl.zp) (zid * lbasPerZone ftl.zp) lba n =
      if (ftl.device zid).cond = .full then (ftl.device zid, .full)
      else ((ftl.device zid).advance (lbasPerZone ftl.zp) n, .success) := by
    rw [device_write, if_neg (fun hu => h₁ (hunit.mp hu)), if_neg (not_not_intro h₂),
      if_neg (not_not_intro (h₃.trans hwp))]
  by_cases hfull : (ftl.zoneDescs zid).state = .full
  · refine refuse .full (by decide) ?_ ?_
    · rw [hverdict]
      unfold openForWrite
      rw [hfull]
      rfl
    · rw [hwrite, if_pos ((condition_full k hz).mpr hfull)]
  · obtain ⟨hst, hd⟩ := openForWrite_opens k hz hfull h₃
    have hnot : ¬ (ftl.device zid).cond = .full := fun hc => hfull ((condition_full k hz).mp hc)
    rw [if_neg hnot] at hwrite
    refine ⟨?_, fun _ => ⟨hwrite, ?_⟩⟩
    · rw [hverdict, hwrite]
      exact hst
    · rw [hverdict]
      exact hd

theorem increaseWritePtr_zoneDescs (m : ZnsFtl) (n : Nat) :
    (increaseWritePtr spp m zid n).zoneDescs = Function.update m.zoneDescs zid
      { m.zoneDescs zid with
        wp := u64 ((m.zoneDescs zid).wp + u32 n)
        state := if u64 ((m.zoneDescs zid).wp + u32 n) = fullAt spp m zid then .full
          else (m.zoneDescs zid).state } := by
  by_cases h : u64 ((m.zoneDescs zid).wp + u32 n) = fullAt spp m zid
  · have heq : increaseWritePtr spp m zid n = (((m.setDesc zid { m.zoneDescs zid with
        wp := u64 ((m.zoneDescs zid).wp + u32 n) }).releaseZoneResource .openZone).releaseZoneResource
          .activeZone).changeZoneState zid .full := if_pos h
    have hd : (((m.setDesc zid { m.zoneDescs zid with
        wp := u64 ((m.zoneDescs zid).wp + u32 n) }).releaseZoneResource .openZone).releaseZoneResource
          .activeZone).zoneDescs = Function.update m.zoneDescs zid
            { m.zoneDescs zid with wp := u64 ((m.zoneDescs zid).wp + u32 n) } := rfl
    rw [heq, ZnsFtl.changeZoneState_zoneDescs, hd, Function.update_idem, Function.update_self, if_pos h]
  · have heq : increaseWritePtr spp m zid n = m.setDesc zid { m.zoneDescs zid with
        wp := u64 ((m.zoneDescs zid).wp + u32 n) } := if_neg h
    rw [heq, if_neg h]
    rfl

/-- The zone after a write that was admitted. -/
theorem written_device (k : PlainZones spp ftl leak) (hz : zid < ftl.zp.nrZones) {m : ZnsFtl} {n : Nat}
    (hn : n ≤ 2^16) (hzp : m.zp = ftl.zp)
    (hm : m.zoneDescs = Function.update ftl.zoneDescs zid { ftl.zoneDescs zid with
      state := if (ftl.zoneDescs zid).state = .openedExpl then .openedExpl else .openedImpl }) :
    (increaseWritePtr spp m zid n).device =
      Function.update ftl.device zid ((ftl.device zid).advance (lbasPerZone ftl.zp) n) := by
  have hself : m.zoneDescs zid = { ftl.zoneDescs zid with
      state := if (ftl.zoneDescs zid).state = .openedExpl then .openedExpl else .openedImpl } := by
    rw [hm, Function.update_self]
  have hend := k.pointers.addressable.zone_end_le hz
  have hlo := (k.pointers.pointers zid hz).lower (k.plain zid)
  have hup := (k.pointers.pointers zid hz).upper (k.plain zid)
  rw [k.pointers.zoneEnd_eq hz] at hup
  have hfull : fullAt spp m zid = (ftl.zoneDescs zid).zoneEnd := by
    rw [← k.pointers.fullAt_eq hz]
    unfold fullAt
    rw [hself, hzp]
  have hu : u64 ((m.zoneDescs zid).wp + u32 n) = (ftl.zoneDescs zid).wp + n := by
    rw [hself]
    unfold u64 u32
    dsimp only
    omega
  have hd : (increaseWritePtr spp m zid n).zoneDescs = _ := increaseWritePtr_zoneDescs m n
  rw [hu, hfull, hself, hm, Function.update_idem] at hd
  rw [device_update hd]
  have hat : (ftl.zoneDescs zid).wp + n = (ftl.zoneDescs zid).zoneEnd ↔
      (ftl.device zid).filled + n = lbasPerZone ftl.zp := by
    change _ ↔ (ftl.zoneDescs zid).wp - (ftl.zoneDescs zid).zslba + n = _
    unfold ZoneDescriptor.zoneEnd
    rw [k.pointers.capacity zid hz]
    omega
  have hexpl : (ftl.device zid).cond = .explicit ↔ (ftl.zoneDescs zid).state = .openedExpl := by
    change (ftl.zoneDescs zid).state.condition = .explicit ↔ _
    cases (ftl.zoneDescs zid).state <;> simp [ZoneState.condition]
  congr 1
  unfold ZonedDevice.Zone.advance ZoneDescriptor.zone
  dsimp only
  congr 1
  · by_cases h : (ftl.zoneDescs zid).wp + n = (ftl.zoneDescs zid).zoneEnd
    · rw [if_pos h, if_pos (hat.mp h)]
      rfl
    · rw [if_neg h, if_neg (fun h' => h (hat.mpr h'))]
      by_cases he : (ftl.zoneDescs zid).state = .openedExpl
      · rw [if_pos he, if_pos (hexpl.mpr he)]
        rfl
      · rw [if_neg he, if_neg (fun h' => he (hexpl.mp h'))]
        rfl
  · change _ = (ftl.zoneDescs zid).wp - (ftl.zoneDescs zid).zslba + n
    omega

theorem PlainZones.charged (k : PlainZones spp ftl leak) (cmd : ZnsCommand) :
    PlainZones spp (charged spp ftl cmd) leak where
  ok := charged_ok k.ok cmd
  pointers := k.pointers.congr (charged_zp cmd) (charged_zoneDescs cmd)
  plain z := by
    rw [charged_zoneDescs]
    exact k.plain z

/-- A write or an append that is not turned away for want of buffer space. -/
theorem znsWrite_follows (k : PlainZones spp ftl leak) {garbage : Nat} {req : ZnsRequest} {ret : NvmevResult}
    {out : ZnsOutcome} (hw : IsWrite req.cmd) (hlen : req.cmd.length < 2^16)
    (hrange : req.cmd.slba + req.cmd.length < 2^64)
    (h : znsProcNvmeIoCmd clk spp garbage ftl req ret = .ok out) (hacc : out.accepted = true) :
    out.ftl.device = Function.update ftl.device (zoneOf spp ftl req.cmd)
      ((ftl.device (zoneOf spp ftl req.cmd)).write (znsGeometry spp ftl.zp)
        (zoneOf spp ftl req.cmd * lbasPerZone ftl.zp) (writeLba spp ftl req.cmd)
        (nrLbasFromRwCmd req.cmd)).1 ∧
    out.ret.status = replyStatus ((ftl.device (zoneOf spp ftl req.cmd)).write (znsGeometry spp ftl.zp)
      (zoneOf spp ftl req.cmd * lbasPerZone ftl.zp) (writeLba spp ftl req.cmd)
      (nrLbasFromRwCmd req.cmd)).2 := by
  obtain ⟨hz, hcase⟩ := write_plain k.plain hw h
  have hn : nrLbasFromRwCmd req.cmd ≤ 2^16 := hlen
  have hfit : writeLba spp ftl req.cmd + nrLbasFromRwCmd req.cmd ≤ 2^64 := by
    unfold writeLba
    split
    · have hup := (k.pointers.pointers _ hz).upper (k.plain _)
      have hend := k.pointers.addressable.zone_end_le hz
      rw [k.pointers.zoneEnd_eq hz] at hup
      omega
    · unfold nrLbasFromRwCmd
      omega
  have hpos : 0 < nrLbasFromRwCmd req.cmd := Nat.succ_pos req.cmd.length
  have k₀ := k.charged req.cmd
  have hzp : (charged spp ftl req.cmd).zp = ftl.zp := charged_zp req.cmd
  have hdev : (charged spp ftl req.cmd).device = ftl.device := device_congr (charged_zoneDescs req.cmd)
  have hadm := admitWrite_admits k₀ (by rwa [hzp]) hpos hn hfit
  have hstatus := hadm.status
  have hopened := hadm.opened
  rw [hzp, hdev] at hstatus hopened
  cases hcase with
  | refused short => cases hacc
  | rejected room failed =>
    have hsame := admission_rejected k.ok hz failed
    refine ⟨?_, hstatus⟩
    have hstay : ((ftl.device (zoneOf spp ftl req.cmd)).write (znsGeometry spp ftl.zp)
        (zoneOf spp ftl req.cmd * lbasPerZone ftl.zp) (writeLba spp ftl req.cmd)
        (nrLbasFromRwCmd req.cmd)).1 = ftl.device (zoneOf spp ftl req.cmd) := by
      refine ZonedDevice.write_refused (fun hsuccess => failed ?_)
      rw [hsuccess] at hstatus
      exact hstatus
    rw [hstay, Function.update_eq_self]
    exact (congrArg ZnsFtl.device hsame).trans hdev
  | @written t target ssd p room passed pages =>
    obtain ⟨hreply, hd⟩ := hopened passed
    rw [charged_zoneDescs] at hd
    have hzp' : (admission spp ftl req.cmd).1.zp = ftl.zp := (admitWrite_zp spp _ _ _ _).trans hzp
    refine ⟨?_, ?_⟩
    · rw [hreply]
      exact (device_congr rfl).trans (written_device k hz hn hzp' hd)
    · rw [hreply]
      rfl

/-- What the host learns from a command about its zones. -/
def answered (spp : SsdParams) (zp : ZnsParams) (cmd : ZnsCommand) (out : ZnsOutcome) :
    List (ZonedDevice.Command × Nat) :=
  match hostCommand spp zp cmd with
  | some c => if out.accepted then [(c, out.ret.status)] else []
  | none => []

/-- One command of the host, answered as the device answers it. -/
theorem znsProcNvmeIoCmd_follows (k : PlainZones spp ftl leak) {garbage : Nat} {req : ZnsRequest}
    {ret : NvmevResult} {out : ZnsOutcome} {c : ZonedDevice.Command} (hask : ¬ AsksZrwa req.cmd)
    (hlen : req.cmd.length < 2^16) (hrange : req.cmd.slba + req.cmd.length < 2^64)
    (h : znsProcNvmeIoCmd clk spp garbage ftl req ret = .ok out) (hacc : out.accepted = true)
    (hc : hostCommand spp ftl.zp req.cmd = some c) :
    out.ftl.device = ((znsGeometry spp ftl.zp).step ftl.device c).1 ∧
      out.ret.status = replyStatus ((znsGeometry spp ftl.zp).step ftl.device c).2 := by
  unfold hostCommand at hc
  cases hop : req.cmd.opcode with
  | write =>
    rw [hop] at hc
    cases hc
    have hf := znsWrite_follows k (.inl hop) hlen hrange h hacc
    have hlba : writeLba spp ftl req.cmd = req.cmd.slba := if_neg (by rw [hop]; decide)
    rw [hlba] at hf
    exact hf
  | zoneAppend =>
    rw [hop] at hc
    cases hc
    obtain ⟨hz, _⟩ := write_plain k.plain (.inr hop) h
    have hf := znsWrite_follows k (.inr hop) hlen hrange h hacc
    have hlba : writeLba spp ftl req.cmd = (ftl.zoneDescs (zoneOf spp ftl req.cmd)).wp := if_pos hop
    rw [hlba, k.wp hz] at hf
    exact hf
  | zoneMgmtSend =>
    rw [hop] at hc
    obtain ⟨a, ha, hc⟩ := Option.map_eq_some_iff.mp hc
    unfold znsProcNvmeIoCmd at h
    rw [hop] at h
    obtain ⟨r, hr, h⟩ := bind_eq_ok.mp h
    cases h
    have hg : ¬ (req.cmd.zsa = .open ∧ req.cmd.zsaso ≠ 0) := fun hg => hask ⟨hop, hg⟩
    cases hall : req.cmd.selectAll with
    | true =>
      rw [hall] at hc hr
      cases hc
      have hf := znsZmgmtSend_all_follows k ha hg hr
      exact ⟨congrArg Prod.fst hf, congrArg Prod.snd hf⟩
    | false =>
      rw [hall] at hc hr
      cases hc
      have hf := zmgmtSend_follows k ha hg hr
      exact ⟨hf.device, hf.status⟩
  | read | flush | zoneMgmtRecv | other =>
    rw [hop] at hc
    cases hc

/-- Other commands, and writes for want of buffer space, leave the device as it is. -/
theorem znsProcNvmeIoCmd_quiet (k : PlainZones spp ftl leak) {garbage : Nat} {req : ZnsRequest}
    {ret : NvmevResult} {out : ZnsOutcome} (h : znsProcNvmeIoCmd clk spp garbage ftl req ret = .ok out)
    (hq : out.accepted = false ∨ hostCommand spp ftl.zp req.cmd = none) : out.ftl.device = ftl.device := by
  by_cases hw : IsWrite req.cmd
  · obtain ⟨hz, hcase⟩ := write_plain k.plain hw h
    have hnot : out.accepted = false := by
      rcases hq with hacc | hnone
      · exact hacc
      · unfold hostCommand at hnone
        rcases hw with hop | hop
        · rw [hop] at hnone
          cases hnone
        · rw [hop] at hnone
          cases hnone
    cases hcase with
    | refused short => rfl
    | rejected room failed => cases hnot
    | written room passed pages => cases hnot
  unfold znsProcNvmeIoCmd at h
  cases hop : req.cmd.opcode with
  | write => exact absurd (.inl hop) hw
  | zoneAppend => exact absurd (.inr hop) hw
  | read =>
    rw [hop] at h
    exact device_congr (znsRead_idle h).2.2.1
  | flush =>
    rw [hop] at h
    cases h
    rfl
  | zoneMgmtRecv | other =>
    rw [hop] at h
    cases h
    rfl
  | zoneMgmtSend =>
    rw [hop] at h
    obtain ⟨r, hr, h⟩ := bind_eq_ok.mp h
    cases h
    have hother : req.cmd.zsa = .other := by
      rcases hq with hacc | hnone
      · cases hacc
      · unfold hostCommand at hnone
        rw [hop] at hnone
        have hz := Option.map_eq_none_iff.mp hnone
        cases hzsa : req.cmd.zsa with
        | other => rfl
        | close | finish | «open» | reset | offline | flushExplZrwa =>
          rw [hzsa] at hz
          cases hz
    rw [hother] at hr
    unfold znsZmgmtSend at hr
    split at hr
    · obtain ⟨m, hm, hr⟩ := bind_eq_ok.mp hr
      cases hr
      refine Sat.of_ok (P := fun s => ZnsFtl.device s = ftl.device)
        (upto_sat (Q := fun _ => True) (fun _ s => ZnsFtl.device s = ftl.device) _ rfl ?_) hm
      intro n _ s hs
      exact hs
    · unfold zmgmtSend at hr
      cases hr
      rfl

/-- Runs without random write areas, with what the host has sent and learnt about the zones. -/
inductive ZnsTrace (clk : Nat → Nat) (cfg : ZnsConfig) (old : ZnsParams) (size : Nat)
    (spp : SsdParams) : ZnsFtl → List (ZonedDevice.Command × Nat) → Prop
  | init {ftl : ZnsFtl} (h : znsInitNamespace cfg old size = .ok (spp, ftl)) :
      ZnsTrace clk cfg old size spp ftl []
  | command {ftl : ZnsFtl} {log : List (ZonedDevice.Command × Nat)} {garbage : Nat} {req : ZnsRequest}
      {ret : NvmevResult} {out : ZnsOutcome} (before : ZnsTrace clk cfg old size spp ftl log)
      (ask : ¬ AsksZrwa req.cmd) (length : req.cmd.length < 2^16)
      (range : req.cmd.slba + req.cmd.length < 2^64)
      (h : znsProcNvmeIoCmd clk spp garbage ftl req ret = .ok out) :
      ZnsTrace clk cfg old size spp out.ftl (log ++ answered spp ftl.zp req.cmd out)
  | release {ftl : ZnsFtl} {log : List (ZonedDevice.Command × Nat)}
      (before : ZnsTrace clk cfg old size spp ftl log) (ref : BufferRef) (n : Nat) :
      ZnsTrace clk cfg old size spp (ftl.setBuffer ref (bufferRelease (ftl.buffer ref) n)) log

variable {cfg : ZnsConfig} {old : ZnsParams} {size : Nat} {log : List (ZonedDevice.Command × Nat)}

theorem ZnsTrace.reachable (h : ZnsTrace clk cfg old size spp ftl log) :
    ZnsReachable clk cfg old size spp (fun _ cmd => ¬ AsksZrwa cmd) ftl := by
  induction h with
  | init h => exact .init h
  | command before ask length range h ih => exact .command ih ask length h
  | release before ref n ih => exact .release ih ref n

theorem ZnsTrace.plainZones (h : ZnsTrace clk cfg old size spp ftl log) (hsmall : size / lbaSize < 2^32) :
    ∃ leak, PlainZones spp ftl leak := by
  obtain ⟨leak, k⟩ := h.reachable.ok
  exact ⟨leak, k, h.reachable.pointers hsmall, h.reachable.plain (fun _ _ ha => ha)⟩

/-- The device has gone where the namespace is, with the same answers. -/
structure Replayed (spp : SsdParams) (ftl : ZnsFtl) (log : List (ZonedDevice.Command × Nat)) : Prop where
  device : ((znsGeometry spp ftl.zp).replay (fun _ => .blank) (log.map Prod.fst)).1 = ftl.device
  replies : ((znsGeometry spp ftl.zp).replay (fun _ => .blank) (log.map Prod.fst)).2.map replyStatus =
    log.map Prod.snd

theorem Replayed.quiet (k : Replayed spp ftl log) (hzp : ftl'.zp = ftl.zp) (hd : ftl'.device = ftl.device) :
    Replayed spp ftl' log := by
  constructor
  · rw [hzp, hd]
    exact k.device
  · rw [hzp]
    exact k.replies

theorem Replayed.snoc (k : Replayed spp ftl log) (hzp : ftl'.zp = ftl.zp) {c : ZonedDevice.Command}
    {status : Nat} (hd : ftl'.device = ((znsGeometry spp ftl.zp).step ftl.device c).1)
    (hs : status = replyStatus ((znsGeometry spp ftl.zp).step ftl.device c).2) :
    Replayed spp ftl' (log ++ [(c, status)]) := by
  have hreplay := ZonedDevice.replay_snoc (g := znsGeometry spp ftl.zp) (log.map Prod.fst) c (fun _ => .blank)
  rw [k.device] at hreplay
  constructor
  · rw [hzp, List.map_append, List.map_singleton, hreplay]
    exact hd.symm
  · rw [hzp, List.map_append, List.map_singleton, hreplay, List.map_append, List.map_append, k.replies,
      List.map_singleton, List.map_singleton, ← hs]

theorem ZnsTrace.replayed (h : ZnsTrace clk cfg old size spp ftl log) (hsmall : size / lbaSize < 2^32) :
    Replayed spp ftl log := by
  induction h with
  | init h =>
    refine ⟨?_, rfl⟩
    unfold znsInitNamespace at h
    obtain ⟨spp', _, h⟩ := bind_eq_ok.mp h
    obtain ⟨zp, _, h⟩ := bind_eq_ok.mp h
    cases h
    funext z
    have hwp : (initDescriptor zp z).wp - (initDescriptor zp z).zslba = 0 := Nat.sub_self _
    change ZonedDevice.Zone.blank = ⟨.empty, (initDescriptor zp z).wp - (initDescriptor zp z).zslba⟩
    rw [hwp]
    rfl
  | @command ftl log garbage req ret out before ask length range h ih =>
    obtain ⟨leak, k⟩ := before.plainZones hsmall
    have hzp := (znsProcNvmeIoCmd_kept k.ok length h).zp
    unfold answered
    cases hc : hostCommand spp ftl.zp req.cmd with
    | none =>
      dsimp only
      rw [List.append_nil]
      exact ih.quiet hzp (znsProcNvmeIoCmd_quiet k h (.inr hc))
    | some c =>
      dsimp only
      by_cases hacc : out.accepted = true
      · rw [if_pos hacc]
        obtain ⟨hd, hs⟩ := znsProcNvmeIoCmd_follows k ask length range h hacc hc
        exact ih.snoc hzp hd hs
      · rw [if_neg hacc, List.append_nil]
        exact ih.quiet hzp (znsProcNvmeIoCmd_quiet k h (.inl (Bool.eq_false_iff.mpr hacc)))
  | release before ref n ih =>
    exact ih.quiet (ZnsFtl.setBuffer_zp _ _ _) (device_congr (ZnsFtl.setBuffer_zoneDescs _ _ _))

/-- Every run of the namespace is one of the device: the same commands lead it to the same zones with the
same replies, in which conditions and write pointers agree. -/
theorem zoned_device (hsmall : size / lbaSize < 2^32) (h : ZnsTrace clk cfg old size spp ftl log) :
    ((znsGeometry spp ftl.zp).replay (fun _ => .blank) (log.map Prod.fst)).1 = ftl.device ∧
    ((znsGeometry spp ftl.zp).replay (fun _ => .blank) (log.map Prod.fst)).2.map replyStatus =
      log.map Prod.snd ∧
    ftl.device.Wf (znsGeometry spp ftl.zp) := by
  have k := h.replayed hsmall
  obtain ⟨leak, p⟩ := h.plainZones hsmall
  have hcap : 0 < (znsGeometry spp ftl.zp).cap := p.ok.zoned.lbas_pos
  refine ⟨k.device, k.replies, ?_⟩
  rw [← k.device]
  exact ZonedDevice.replay_wf hcap _ (fun _ => .blank hcap)

def appendZone1 : ZnsRequest := ⟨⟨.zoneAppend, 2^22 + 100, 7, false, .other, false, 0, 0, 0⟩, 1, 0⟩
def finishZone1 : ZnsRequest := ⟨⟨.zoneMgmtSend, 2^22, 0, false, .finish, false, 0, 0, 0⟩, 1, 0⟩
def writeZone1 : ZnsRequest := ⟨⟨.write, 2^22 + 8, 7, false, .other, false, 0, 0, 0⟩, 1, 0⟩

theorem zoned_device_finished : ∃ spp ftl, ∃ log : List (ZonedDevice.Command × Nat),
    ZnsTrace (fun _ => 0) wdZn540 zeroedParams (2^32) spp ftl log ∧
    log.map Prod.snd = [0, 0, nvmeScZnsErrFull] ∧
    ((znsGeometry spp ftl.zp).replay (fun _ => .blank) (log.map Prod.fst)).2.map replyStatus =
      [0, 0, nvmeScZnsErrFull] := by
  have hrun : check (fun (r : SsdParams × ZnsFtl × ZnsOutcome × ZnsOutcome × ZnsOutcome) =>
      decide ((answered r.1 r.2.1.zp appendZone1.cmd r.2.2.1 ++
        answered r.1 r.2.2.1.ftl.zp finishZone1.cmd r.2.2.2.1 ++
        answered r.1 r.2.2.2.1.ftl.zp writeZone1.cmd r.2.2.2.2).map Prod.snd = [0, 0, nvmeScZnsErrFull])) (do
      let ns ← znsInitNamespace wdZn540 zeroedParams (2^32)
      let out₁ ← znsProcNvmeIoCmd (fun _ => 0) ns.1 0 ns.2 appendZone1 ⟨0, 0⟩
      let out₂ ← znsProcNvmeIoCmd (fun _ => 0) ns.1 0 out₁.ftl finishZone1 ⟨0, 0⟩
      let out₃ ← znsProcNvmeIoCmd (fun _ => 0) ns.1 0 out₂.ftl writeZone1 ⟨0, 0⟩
      return (ns.1, ns.2, out₁, out₂, out₃)) = true := by decide +kernel
  obtain ⟨r, hr, hp⟩ := exists_of_check hrun
  obtain ⟨⟨spp, ftl⟩, hinit, hr⟩ := bind_eq_ok.mp hr
  obtain ⟨out₁, h₁, hr⟩ := bind_eq_ok.mp hr
  obtain ⟨out₂, h₂, hr⟩ := bind_eq_ok.mp hr
  obtain ⟨out₃, h₃, hr⟩ := bind_eq_ok.mp hr
  cases hr
  have hlog := of_decide_eq_true hp
  have h := (((ZnsTrace.init hinit).command
    (by simp [AsksZrwa, appendZone1]) (by decide) (by decide) h₁).command
    (by simp [AsksZrwa, finishZone1]) (by decide) (by decide) h₂).command (by simp [AsksZrwa, writeZone1])
    (by decide) (by decide) h₃
  exact ⟨spp, out₃.ftl, _, h, hlog, (zoned_device (by decide) h).2.1.trans hlog⟩

end NVMeVirt
