import NVMeVirt.ZnsRun
import NVMeVirt.Lib.Ranges

/-!
# The history of a zone

For each zone the ranges of the writes that succeeded since its last reset. Without the
random write area they fill the zone from its start to the write pointer.
-/

namespace NVMeVirt
set_option autoImplicit false
open Outcome Ranges

variable {clk : Nat → Nat} {spp : SsdParams} {ftl ftl' : ZnsFtl} {zid leak : Nat}

def SameWp (ftl ftl' : ZnsFtl) : Prop := ∀ z, (ftl'.zoneDescs z).wp = (ftl.zoneDescs z).wp

theorem SameWp.refl : SameWp ftl ftl := fun _ => rfl

theorem SameWp.trans {ftl'' : ZnsFtl} (h : SameWp ftl ftl') (h' : SameWp ftl' ftl'') : SameWp ftl ftl'' :=
  fun z => (h' z).trans (h z)

theorem changeZoneState_sameWp (ftl : ZnsFtl) (zid : Nat) (s : ZoneState) :
    SameWp ftl (ftl.changeZoneState zid s) := by
  intro z
  by_cases h : z = zid
  · simp [h]
  · simp [h]

theorem leaveActive_sameWp (ftl : ZnsFtl) (zrwa : Bool) : SameWp ftl (leaveActive ftl zrwa) := by
  cases zrwa <;> exact .refl

theorem acquireZoneResource_sameWp (ftl : ZnsFtl) (t : ResType) :
    SameWp ftl (ftl.acquireZoneResource t).1 := by
  unfold ZnsFtl.acquireZoneResource
  split <;> exact .refl

theorem zmgmtSendCloseZone_sameWp : SameWp ftl (zmgmtSendCloseZone ftl zid).1 := by
  unfold zmgmtSendCloseZone
  split <;> first | exact .refl | exact changeZoneState_sameWp ftl zid .closed

theorem zmgmtSendFinishZone_sameWp : SameWp ftl (zmgmtSendFinishZone ftl zid).1 := by
  have hleave : ∀ m : ZnsFtl, ∀ zrwa, SameWp m ((leaveActive m zrwa).changeZoneState zid .full) :=
    fun m zrwa => (leaveActive_sameWp m zrwa).trans (changeZoneState_sameWp _ zid .full)
  unfold zmgmtSendFinishZone
  split
  · exact hleave (ftl.releaseZoneResource .openZone) _
  · exact hleave (ftl.releaseZoneResource .openZone) _
  · exact hleave ftl _
  · exact changeZoneState_sameWp ftl zid .full
  · exact .refl
  · exact .refl

theorem openClosedZone_sameWp (ftl : ZnsFtl) : SameWp ftl (openClosedZone ftl zid).1 := by
  have h := acquireZoneResource_sameWp ftl .openZone
  unfold openClosedZone
  split
  · rename_i m hm
    rw [hm] at h
    exact h
  · rename_i m hm
    rw [hm] at h
    exact h.trans (changeZoneState_sameWp m zid .openedExpl)

theorem zmgmtSendOpenZone_sameWp {zrwa : Nat} : SameWp ftl (zmgmtSendOpenZone ftl zid zrwa).1 := by
  unfold zmgmtSendOpenZone
  split
  · split
    · exact .refl
    split
    · exact .refl
    split
    · split
      · exact .refl
      have hset : ∀ m : ZnsFtl, SameWp m (m.setDesc zid { m.zoneDescs zid with zrwav := true }) := by
        intro m z
        by_cases h : z = zid
        · simp [h]
        · simp [h]
      exact (acquireZoneResource_sameWp ftl .zrwaZone).trans ((hset _).trans
        ((acquireZoneResource_sameWp _ .activeZone).trans (openClosedZone_sameWp _)))
    · exact (acquireZoneResource_sameWp ftl .activeZone).trans (openClosedZone_sameWp _)
  · exact openClosedZone_sameWp ftl
  · exact changeZoneState_sameWp ftl zid .openedExpl
  · exact .refl
  · exact .refl

theorem zmgmtSendOfflineZone_sameWp : SameWp ftl (zmgmtSendOfflineZone ftl zid).1 := by
  unfold zmgmtSendOfflineZone
  split <;> first | exact .refl | exact changeZoneState_sameWp ftl zid .offline

/-- Without a random write area only a reset moves a write pointer. -/
theorem zmgmtSend_sameWp {garbage slba option : Nat} {action : ZoneSendAction} {r : ZnsFtl × Nat}
    (hplain : ∀ z, (ftl.zoneDescs z).zrwav = false) (hne : action ≠ .reset)
    (h : zmgmtSend spp garbage ftl slba action option = .ok r) : SameWp ftl r.1 := by
  unfold zmgmtSend at h
  simp only [pure_eq_ok] at h
  split at h
  · cases h
    exact .refl
  split at h
  · cases h
  cases action with
  | close =>
    cases h
    exact zmgmtSendCloseZone_sameWp
  | finish =>
    cases h
    exact zmgmtSendFinishZone_sameWp
  | «open» =>
    cases h
    exact zmgmtSendOpenZone_sameWp
  | reset => exact absurd rfl hne
  | offline =>
    cases h
    exact zmgmtSendOfflineZone_sameWp
  | flushExplZrwa =>
    simp only [zmgmtSendFlushExplicitZrwa, hplain, if_true, pure_eq_ok] at h
    cases h
    exact .refl
  | other =>
    cases h
    exact .refl

theorem zmgmtSend_reset {garbage option : Nat} {r : ZnsFtl × Nat} {slba : Nat} (k : ZnsOk spp ftl leak)
    (h : zmgmtSend spp garbage ftl slba .reset option = .ok r) :
    lbaToZone spp ftl.zp slba < ftl.zp.nrZones ∧
      r.1.zoneDescs = Function.update ftl.zoneDescs (lbaToZone spp ftl.zp slba)
        (cleared (ftl.zoneDescs (lbaToZone spp ftl.zp slba))) := by
  unfold zmgmtSend at h
  simp only [pure_eq_ok, reduceCtorEq, if_false] at h
  split at h
  · cases h
  rename_i hz
  cases h
  exact ⟨Nat.lt_of_not_le hz, (zmgmtSendResetZone_reset (g := False) k (Nat.lt_of_not_le hz)).2.2⟩

def Resets (spp : SsdParams) (ftl : ZnsFtl) (cmd : ZnsCommand) (z : Nat) : Prop :=
  cmd.opcode = .zoneMgmtSend ∧ cmd.zsa = .reset ∧ (cmd.selectAll = true ∨ zoneOf spp ftl cmd = z) ∧
    (zmgmtSendResetZone ftl z).2 = nvmeScSuccess

structure ResetUpto (spp : SsdParams) (ftl m : ZnsFtl) (leak n : Nat) : Prop where
  ok : ZnsOk spp m leak
  pointers : PointersOk spp m
  zp : m.zp = ftl.zp
  done : ∀ z < n, (m.zoneDescs z).wp = z * lbasPerZone ftl.zp
  rest : ∀ z, n ≤ z → m.zoneDescs z = ftl.zoneDescs z

theorem ResetUpto.step {m : ZnsFtl} {n garbage option : Nat} {r : ZnsFtl × Nat}
    (h : ResetUpto spp ftl m leak n) (hn : n < ftl.zp.nrZones)
    (hr : zmgmtSend spp garbage m (zoneToSlba spp m.zp n) .reset option = .ok r) :
    ResetUpto spp ftl r.1 leak (n + 1) := by
  have hs := zmgmtSend_sent h.ok hr
  obtain ⟨_, hd⟩ := zmgmtSend_reset h.ok hr
  have hn' : n < m.zp.nrZones := by rwa [h.zp]
  rw [h.pointers.addressable.lbaToZone_zoneToSlba hn'] at hd
  refine ⟨hs.ok, hs.pointers h.pointers, hs.zp.trans h.zp, fun z hz => ?_, fun z hz => ?_⟩
  · rw [hd]
    by_cases hzn : z = n
    · subst hzn
      rw [Function.update_self]
      exact (h.pointers.zslba z hn').trans (by rw [h.zp])
    · rw [Function.update_of_ne hzn]
      exact h.done z (by omega)
  · rw [hd, Function.update_of_ne (by omega)]
    exact h.rest z (by omega)

theorem resetAll_upto {m : ZnsFtl} {garbage option : Nat} (k : ZnsOk spp ftl leak)
    (p : PointersOk spp ftl) (h : upto (fun zid ftl => do
      let (ftl, _) ← zmgmtSend spp garbage ftl (zoneToSlba spp ftl.zp zid) .reset option
      return ftl) ftl.zp.nrZones ftl = .ok m) : ResetUpto spp ftl m leak ftl.zp.nrZones := by
  refine Sat.of_ok (P := fun s => ResetUpto spp ftl s leak ftl.zp.nrZones)
    (upto_sat (Q := fun _ => True) (fun n s => ResetUpto spp ftl s leak n) _
      ⟨k, p, rfl, fun z hz => absurd hz (Nat.not_lt_zero z), fun _ _ => rfl⟩ ?_) h
  intro n hn s hs
  cases hx : zmgmtSend spp garbage s (zoneToSlba spp s.zp n) .reset option with
  | error e => trivial
  | ok r => exact hs.step hn hx

theorem znsZmgmtSend_sameWp {garbage slba option : Nat} {all : Bool} {action : ZoneSendAction}
    {r : ZnsFtl × Nat} (k : ZnsOk spp ftl leak) (hplain : ∀ z, (ftl.zoneDescs z).zrwav = false)
    (hne : action ≠ .reset) (hg : ¬ (action = .open ∧ option ≠ 0))
    (h : znsZmgmtSend spp garbage ftl all slba action option = .ok r) : SameWp ftl r.1 := by
  unfold znsZmgmtSend at h
  cases all with
  | false => exact zmgmtSend_sameWp hplain hne h
  | true =>
    obtain ⟨m, hm, hr⟩ := bind_eq_ok.mp h
    cases hr
    refine (Sat.of_ok (P := fun s => ZnsOk spp s leak ∧ (∀ z, (s.zoneDescs z).zrwav = false) ∧
        SameWp ftl s) (upto_sat (Q := fun _ => True) (fun _ s => ZnsOk spp s leak ∧
        (∀ z, (s.zoneDescs z).zrwav = false) ∧ SameWp ftl s) _ ⟨k, hplain, .refl⟩ ?_) hm).2.2
    intro n hn s ⟨hok, hz, hwp⟩
    cases hx : zmgmtSend spp garbage s (zoneToSlba spp s.zp n) action option with
    | error e => trivial
    | ok r =>
      have hs := zmgmtSend_sent hok hx
      exact ⟨hs.ok, fun z => hs.zrwav hg z (hz z), hwp.trans (zmgmtSend_sameWp hz hne hx)⟩

/-- After a management send every zone's write pointer is at its start if the zone was reset, and
where it was otherwise. -/
theorem znsZmgmtSend_wp {garbage : Nat} {cmd : ZnsCommand} {r : ZnsFtl × Nat} (k : ZnsOk spp ftl leak)
    (p : PointersOk spp ftl) (hplain : ∀ z, (ftl.zoneDescs z).zrwav = false)
    (hop : cmd.opcode = .zoneMgmtSend) (hask : ¬ AsksZrwa cmd)
    (h : znsZmgmtSend spp garbage ftl cmd.selectAll cmd.slba cmd.zsa cmd.zsaso = .ok r) :
    ∀ z < ftl.zp.nrZones,
      (Resets spp ftl cmd z → (r.1.zoneDescs z).wp = z * lbasPerZone ftl.zp) ∧
      (¬ Resets spp ftl cmd z → (r.1.zoneDescs z).wp = (ftl.zoneDescs z).wp) := by
  have hsuccess : ∀ z < ftl.zp.nrZones, (zmgmtSendResetZone ftl z).2 = nvmeScSuccess :=
    fun z hz => (zmgmtSendResetZone_reset (g := False) k hz).1
  by_cases hreset : cmd.zsa = .reset
  · rw [hreset] at h
    unfold znsZmgmtSend at h
    intro z hz
    cases hall : cmd.selectAll with
    | false =>
      rw [hall, if_neg (by decide)] at h
      obtain ⟨hz₀, hd⟩ := zmgmtSend_reset k h
      rw [show lbaToZone spp ftl.zp cmd.slba = zoneOf spp ftl cmd from rfl] at hd
      rw [hd]
      by_cases hzone : z = zoneOf spp ftl cmd
      · subst hzone
        refine ⟨fun _ => ?_, fun hn => absurd ⟨hop, hreset, .inr rfl, hsuccess _ hz⟩ hn⟩
        rw [Function.update_self]
        exact p.zslba _ hz
      · refine ⟨fun hr => ?_, fun _ => by rw [Function.update_of_ne hzone]⟩
        rcases hr.2.2.1 with hs | hs
        · rw [hall] at hs
          cases hs
        · exact absurd hs.symm hzone
    | true =>
      rw [hall] at h
      obtain ⟨m, hm, hr⟩ := bind_eq_ok.mp h
      cases hr
      exact ⟨fun _ => (resetAll_upto k p hm).done z hz,
        fun hn => absurd ⟨hop, hreset, .inl hall, hsuccess z hz⟩ hn⟩
  · have hsame := znsZmgmtSend_sameWp k hplain hreset (fun hg => hask ⟨hop, hg⟩) h
    exact fun z _ => ⟨fun hr => absurd hr.2.1 hreset, fun _ => hsame z⟩

/-- A write that returned success, with the LBA that its submission entry has by then. -/
def Succeeds (cmd : ZnsCommand) (out : ZnsOutcome) : Prop :=
  IsWrite cmd ∧ out.accepted = true ∧ out.ret.status = nvmeScSuccess

instance (cmd : ZnsCommand) : Decidable (IsWrite cmd) := inferInstanceAs (Decidable (_ ∨ _))
instance (cmd : ZnsCommand) (out : ZnsOutcome) : Decidable (Succeeds cmd out) :=
  inferInstanceAs (Decidable (_ ∧ _ ∧ _))

theorem write_plain {garbage : Nat} {req : ZnsRequest} {ret : NvmevResult} {out : ZnsOutcome}
    (hplain : ∀ z, (ftl.zoneDescs z).zrwav = false) (hw : IsWrite req.cmd)
    (h : znsProcNvmeIoCmd clk spp garbage ftl req ret = .ok out) :
    zoneOf spp ftl req.cmd < ftl.zp.nrZones ∧ PlainWrite clk spp ftl req ret out := by
  have hwrite : znsWrite clk spp ftl req ret = .ok out := by
    unfold znsProcNvmeIoCmd at h
    rcases hw with hop | hop <;> rw [hop] at h <;> exact h
  unfold znsWrite at hwrite
  simp only [hplain, if_true] at hwrite
  split at hwrite
  · cases hwrite
  exact znsWritePlain_cases hwrite

theorem succeeds_written {garbage : Nat} {req : ZnsRequest} {ret : NvmevResult} {out : ZnsOutcome}
    (k : ZnsOk spp ftl leak) (hplain : ∀ z, (ftl.zoneDescs z).zrwav = false)
    (hlen : req.cmd.length < 2^16) (h : znsProcNvmeIoCmd clk spp garbage ftl req ret = .ok out)
    (hs : Succeeds req.cmd out) :
    zoneOf spp ftl req.cmd < ftl.zp.nrZones ∧ out.cmd.slba = writeLba spp ftl req.cmd ∧
      ZoneWritten spp ftl out.ftl req.cmd leak := by
  obtain ⟨hw, hacc, hst⟩ := hs
  obtain ⟨hz, hcase⟩ := write_plain hplain hw h
  cases hcase with
  | refused short => cases hacc
  | rejected room failed => exact absurd hst failed
  | written room passed pages => exact ⟨hz, rfl, zoneWritten_of k hlen hz (hplain _) passed _⟩

/-- A write that did not succeed leaves the zones as they were. -/
theorem write_failed {garbage : Nat} {req : ZnsRequest} {ret : NvmevResult} {out : ZnsOutcome}
    (k : ZnsOk spp ftl leak) (hplain : ∀ z, (ftl.zoneDescs z).zrwav = false) (hw : IsWrite req.cmd)
    (h : znsProcNvmeIoCmd clk spp garbage ftl req ret = .ok out) (hs : ¬ Succeeds req.cmd out) :
    out.ftl.zoneDescs = ftl.zoneDescs := by
  obtain ⟨hz, hcase⟩ := write_plain hplain hw h
  cases hcase with
  | refused short => rfl
  | rejected room failed =>
    rw [admission_rejected k hz failed]
    exact charged_zoneDescs _
  | written room passed pages => exact absurd ⟨hw, rfl, rfl⟩ hs

/-- A command that is no write moves the write pointers of the zones that it resets, schedules
nothing and takes no buffer space. -/
theorem not_write_wp {garbage : Nat} {req : ZnsRequest} {ret : NvmevResult} {out : ZnsOutcome}
    (k : ZnsOk spp ftl leak) (p : PointersOk spp ftl) (hplain : ∀ z, (ftl.zoneDescs z).zrwav = false)
    (hask : ¬ AsksZrwa req.cmd) (hw : ¬ IsWrite req.cmd)
    (h : znsProcNvmeIoCmd clk spp garbage ftl req ret = .ok out) :
    out.calls = [] ∧ out.ftl.zoneWriteBuffer = ftl.zoneWriteBuffer ∧ ∀ z < ftl.zp.nrZones,
      (Resets spp ftl req.cmd z → (out.ftl.zoneDescs z).wp = z * lbasPerZone ftl.zp) ∧
      (¬ Resets spp ftl req.cmd z → (out.ftl.zoneDescs z).wp = (ftl.zoneDescs z).wp) := by
  by_cases hop : req.cmd.opcode = .zoneMgmtSend
  · unfold znsProcNvmeIoCmd at h
    rw [hop] at h
    obtain ⟨r, hr, h⟩ := bind_eq_ok.mp h
    cases h
    exact ⟨rfl, (znsZmgmtSend_sent k hr).zoneWriteBuffer, znsZmgmtSend_wp k p hplain hop hask hr⟩
  · have idle : out.calls = [] ∧ out.ftl.zoneWriteBuffer = ftl.zoneWriteBuffer ∧
        out.ftl.zoneDescs = ftl.zoneDescs := by
      unfold znsProcNvmeIoCmd at h
      cases hc : req.cmd.opcode <;> rw [hc] at h
      case write => exact absurd (.inl hc) hw
      case zoneAppend => exact absurd (.inr hc) hw
      case read =>
        obtain ⟨_, _, hd, hb, hcalls⟩ := znsRead_idle h
        exact ⟨hcalls, hb, hd⟩
      case flush =>
        cases h
        exact ⟨rfl, rfl, rfl⟩
      case zoneMgmtSend => exact absurd hc hop
      case zoneMgmtRecv =>
        cases h
        exact ⟨rfl, rfl, rfl⟩
      case other =>
        cases h
        exact ⟨rfl, rfl, rfl⟩
    exact ⟨idle.1, idle.2.1, fun z _ => ⟨fun hr => absurd hr.1 hop, fun _ => by rw [idle.2.2]⟩⟩

/-- The zone that an LBA is in. -/
def lbaZone (zp : ZnsParams) (lba : Nat) : Nat := lba / lbasPerZone zp

instance (spp : SsdParams) (ftl : ZnsFtl) (cmd : ZnsCommand) (z : Nat) :
    Decidable (Resets spp ftl cmd z) := inferInstanceAs (Decidable (_ ∧ _ ∧ (_ ∨ _) ∧ _))

def record (spp : SsdParams) (ftl : ZnsFtl) (cmd : ZnsCommand) (out : ZnsOutcome)
    (hist : Nat → List (Nat × Nat)) (z : Nat) : List (Nat × Nat) :=
  if Resets spp ftl cmd z then []
  else if Succeeds cmd out ∧ lbaZone ftl.zp out.cmd.slba = z then
    hist z ++ [(out.cmd.slba, nrLbasFromRwCmd cmd)]
  else hist z

inductive ZnsHistory (clk : Nat → Nat) (cfg : ZnsConfig) (old : ZnsParams) (size : Nat)
    (spp : SsdParams) : ZnsFtl → (Nat → List (Nat × Nat)) → Prop
  | init {ftl : ZnsFtl} (h : znsInitNamespace cfg old size = .ok (spp, ftl)) :
      ZnsHistory clk cfg old size spp ftl (fun _ => [])
  | command {ftl : ZnsFtl} {hist : Nat → List (Nat × Nat)} {garbage : Nat} {req : ZnsRequest}
      {ret : NvmevResult} {out : ZnsOutcome} (before : ZnsHistory clk cfg old size spp ftl hist)
      (ask : ¬ AsksZrwa req.cmd) (length : req.cmd.length < 2^16)
      (h : znsProcNvmeIoCmd clk spp garbage ftl req ret = .ok out) :
      ZnsHistory clk cfg old size spp out.ftl (record spp ftl req.cmd out hist)
  | release {ftl : ZnsFtl} {hist : Nat → List (Nat × Nat)}
      (before : ZnsHistory clk cfg old size spp ftl hist) (ref : BufferRef) (n : Nat) :
      ZnsHistory clk cfg old size spp (ftl.setBuffer ref (bufferRelease (ftl.buffer ref) n)) hist

namespace ZnsHistory

variable {cfg : ZnsConfig} {old : ZnsParams} {size : Nat} {hist : Nat → List (Nat × Nat)}

theorem reachable (h : ZnsHistory clk cfg old size spp ftl hist) :
    ZnsReachable clk cfg old size spp (fun _ cmd => ¬ AsksZrwa cmd) ftl := by
  induction h with
  | init h => exact .init h
  | command before ask length h ih => exact .command ih ask length h
  | release before ref n ih => exact .release ih ref n

end ZnsHistory

/-- The ranges of every zone lie end to end from its start to its write pointer. -/
def Tiled (ftl : ZnsFtl) (hist : Nat → List (Nat × Nat)) : Prop :=
  ∀ z < ftl.zp.nrZones, Tiles (z * lbasPerZone ftl.zp) (hist z) (ftl.zoneDescs z).wp

theorem IsWrite.not_resets {cmd : ZnsCommand} (hw : IsWrite cmd) (z : Nat) : ¬ Resets spp ftl cmd z := by
  intro hr
  have hop := hr.1
  rcases hw with h | h <;> simp [h] at hop

theorem record_idle {cmd : ZnsCommand} {out : ZnsOutcome} {hist : Nat → List (Nat × Nat)}
    (hr : ∀ z, ¬ Resets spp ftl cmd z) (hs : ¬ Succeeds cmd out) :
    record spp ftl cmd out hist = hist := by
  funext z
  rw [record, if_neg (hr z), if_neg (fun h => hs h.1)]

theorem Tiled.idle {cmd : ZnsCommand} {out : ZnsOutcome} {hist : Nat → List (Nat × Nat)}
    (t : Tiled ftl hist) (hr : ∀ z, ¬ Resets spp ftl cmd z) (hs : ¬ Succeeds cmd out)
    (hp : ftl'.zp = ftl.zp) (hd : ftl'.zoneDescs = ftl.zoneDescs) :
    Tiled ftl' (record spp ftl cmd out hist) := by
  rw [record_idle hr hs]
  unfold Tiled
  rw [hp, hd]
  exact t

theorem ZoneWritten.lbaZone_eq {cmd : ZnsCommand} (w : ZoneWritten spp ftl ftl' cmd leak)
    (p : PointersOk spp ftl) (hz : zoneOf spp ftl cmd < ftl.zp.nrZones)
    (hplain : (ftl.zoneDescs (zoneOf spp ftl cmd)).zrwav = false) :
    lbaZone ftl.zp (writeLba spp ftl cmd) = zoneOf spp ftl cmd := by
  have hhi := w.below p hz hplain
  have hlo := (p.pointers _ hz).lower hplain
  rw [← w.checks.wp, p.zslba _ hz] at hlo
  rw [p.zoneEnd_eq hz] at hhi
  exact Zoned.zone_of hlo hhi

theorem Tiled.write {cmd : ZnsCommand} {out : ZnsOutcome} {hist : Nat → List (Nat × Nat)}
    (t : Tiled ftl hist) (p : PointersOk spp ftl) (hplain : ∀ z, (ftl.zoneDescs z).zrwav = false)
    (hlen : cmd.length < 2^16) (hs : Succeeds cmd out) (hz : zoneOf spp ftl cmd < ftl.zp.nrZones)
    (hslba : out.cmd.slba = writeLba spp ftl cmd) (w : ZoneWritten spp ftl ftl' cmd leak) :
    Tiled ftl' (record spp ftl cmd out hist) := by
  have hzone := w.lbaZone_eq p hz (hplain _)
  have hwp := w.wp p hlen hz (hplain _)
  obtain ⟨s, _, hd⟩ := w.zone
  unfold Tiled
  rw [w.zp]
  intro z hlt
  rw [record, if_neg (hs.1.not_resets z), hslba, hzone]
  by_cases hne : zoneOf spp ftl cmd = z
  · subst hne
    rw [if_pos ⟨hs, rfl⟩, hd, hwp, w.checks.wp]
    exact (t _ hz).snoc (Nat.succ_pos _)
  · rw [if_neg (fun h => hne h.2), w.others z (Ne.symm hne)]
    exact t z hlt

theorem Tiled.command {garbage : Nat} {req : ZnsRequest} {ret : NvmevResult} {out : ZnsOutcome}
    {hist : Nat → List (Nat × Nat)} (t : Tiled ftl hist) (k : ZnsOk spp ftl leak) (p : PointersOk spp ftl)
    (hplain : ∀ z, (ftl.zoneDescs z).zrwav = false) (hask : ¬ AsksZrwa req.cmd)
    (hlen : req.cmd.length < 2^16) (h : znsProcNvmeIoCmd clk spp garbage ftl req ret = .ok out) :
    Tiled out.ftl (record spp ftl req.cmd out hist) := by
  have hzp := (znsProcNvmeIoCmd_kept k hlen h).zp
  by_cases hw : IsWrite req.cmd
  · by_cases hs : Succeeds req.cmd out
    · obtain ⟨hz, hslba, w⟩ := succeeds_written k hplain hlen h hs
      exact t.write p hplain hlen hs hz hslba w
    · exact t.idle hw.not_resets hs hzp (write_failed k hplain hw h hs)
  have hs : ¬ Succeeds req.cmd out := fun hs => hw hs.1
  have hwp := (not_write_wp k p hplain hask hw h).2.2
  unfold Tiled
  rw [hzp]
  intro z hz
  by_cases hreset : Resets spp ftl req.cmd z
  · rw [record, if_pos hreset, (hwp z hz).1 hreset]
    exact tiles_nil
  · rw [record, if_neg hreset, if_neg (fun h => hs h.1), (hwp z hz).2 hreset]
    exact t z hz

theorem ZnsHistory.tiled {cfg : ZnsConfig} {old : ZnsParams} {size : Nat} {hist : Nat → List (Nat × Nat)}
    (h : ZnsHistory clk cfg old size spp ftl hist) (hsmall : size / lbaSize < 2^32) : Tiled ftl hist := by
  induction h with
  | init h =>
    have p := (znsInitNamespace_ok h).2.2.1 hsmall
    have hplain := (znsInitNamespace_ok h).2.2.2
    intro z hz
    unfold znsInitNamespace at h
    obtain ⟨spp', _, h⟩ := bind_eq_ok.mp h
    obtain ⟨zp, _, h⟩ := bind_eq_ok.mp h
    cases h
    rw [(p.pointers z hz).start rfl rfl, p.zslba z hz]
    exact tiles_nil
  | command before ask length h ih =>
    have hr := before.reachable
    obtain ⟨leak, k⟩ := hr.ok
    exact ih.command k (hr.pointers hsmall) (hr.plain (fun _ _ ha => ha)) ask length h
  | release before ref n ih =>
    unfold Tiled
    rw [ZnsFtl.setBuffer_zp, ZnsFtl.setBuffer_zoneDescs]
    exact ih

/-- The history of every zone fills it from its start to the write pointer. The next write that
succeeds stays in one zone, which is neither full nor out of use. -/
theorem zone_history {cfg : ZnsConfig} {old : ZnsParams} {size : Nat} {hist : Nat → List (Nat × Nat)}
    (hsmall : size / lbaSize < 2^32) (h : ZnsHistory clk cfg old size spp ftl hist) :
    (∀ z < ftl.zp.nrZones,
      Tiles (ftl.zoneDescs z).zslba (hist z) (ftl.zoneDescs z).wp ∧
      (hist z).Pairwise (fun a b => ∀ lba, ¬ (Within a lba ∧ Within b lba)) ∧
      ∀ lba, (∃ r ∈ hist z, Within r lba) ↔
        (ftl.zoneDescs z).zslba ≤ lba ∧ lba < (ftl.zoneDescs z).wp) ∧
    ∀ garbage req ret out, req.cmd.length < 2^16 →
      znsProcNvmeIoCmd clk spp garbage ftl req ret = .ok out → Succeeds req.cmd out →
      lbaZone ftl.zp out.cmd.slba =
        lbaZone ftl.zp (out.cmd.slba + nrLbasFromRwCmd req.cmd - 1) ∧
      (ftl.zoneDescs (lbaZone ftl.zp out.cmd.slba)).state ∉ [.full, .readOnly, .offline] := by
  have hr := h.reachable
  obtain ⟨leak, k⟩ := hr.ok
  have p := hr.pointers hsmall
  have hplain := hr.plain (fun _ _ ha => ha)
  refine ⟨fun z hz => ?_, fun garbage req ret out hlen hproc hs => ?_⟩
  · have ht := h.tiled hsmall z hz
    rw [← p.zslba z hz] at ht
    exact ⟨ht, ht.pairwise, ht.cover⟩
  · obtain ⟨hz, hslba, w⟩ := succeeds_written k hplain hlen hproc hs
    have hzone := w.lbaZone_eq p hz (hplain _)
    have hin := w.inside p hlen hz (hplain _)
    have hlo := (p.addressable.in_zone hzone).1
    have hn : 0 < nrLbasFromRwCmd req.cmd := Nat.succ_pos _
    rw [p.zoneEnd_eq hz] at hin
    have hlast : lbaZone ftl.zp (writeLba spp ftl req.cmd + nrLbasFromRwCmd req.cmd - 1) =
        zoneOf spp ftl req.cmd := Zoned.zone_of (by omega) (by omega)
    rw [hslba, hzone, hlast]
    refine ⟨rfl, ?_⟩
    rcases w.writable with he | ha
    · simp [he]
    · have hu := ha.usable
      have hf : (ftl.zoneDescs (zoneOf spp ftl req.cmd)).state ≠ .full := fun h => not_active_full h ha
      simp [hf, hu]

theorem zone_history_append : ∃ spp ftl hist,
    ZnsHistory (fun _ => 0) wdZn540 zeroedParams (2^32) spp ftl hist ∧
    1 < ftl.zp.nrZones ∧ hist 1 = [(2^22, 8)] ∧
    Tiles (ftl.zoneDescs 1).zslba (hist 1) (ftl.zoneDescs 1).wp := by
  let req : ZnsRequest := ⟨⟨.zoneAppend, 2^22 + 100, 7, false, .other, false, 0, 0, 0⟩, 1, 0⟩
  have hrun : check (fun (spp, ftl, out) => decide (1 < out.ftl.zp.nrZones) &&
      decide (record spp ftl req.cmd out (fun _ => []) 1 = [(2^22, 8)])) (do
      let (spp, ftl) ← znsInitNamespace wdZn540 zeroedParams (2^32)
      let out ← znsProcNvmeIoCmd (fun _ => 0) spp 0 ftl req ⟨0, 0⟩
      return (spp, ftl, out)) = true := by decide +kernel
  obtain ⟨r, hr, hp⟩ := exists_of_check hrun
  obtain ⟨⟨spp, ftl⟩, hinit, hr⟩ := bind_eq_ok.mp hr
  obtain ⟨out, hproc, hr⟩ := bind_eq_ok.mp hr
  cases hr
  simp only [Bool.and_eq_true, decide_eq_true_eq] at hp
  have h := (ZnsHistory.init hinit).command (by simp [AsksZrwa, req]) (by decide) hproc
  exact ⟨spp, out.ftl, _, h, hp.1, hp.2, ((zone_history (by decide) h).1 1 hp.1).1⟩

end NVMeVirt
