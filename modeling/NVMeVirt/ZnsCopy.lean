import NVMeVirt.IoCopy
import NVMeVirt.ZnsHistory

/-!
# Data under the write pointer

A zoned namespace together with its storage. The handler checks a write when it is
dispatched; a worker copies the data later, from the submission entry. Nothing on that way
looks at the status, so a rejected write is copied as well.
-/

namespace NVMeVirt
set_option autoImplicit false
open Outcome Ranges Gather

variable {clk : Nat → Nat} {spp : SsdParams} {ftl : ZnsFtl} {leak : Nat}

def znsOpcodeOf (opcode : Nat) : ZnsOpcode :=
  if opcode = nvmeCmdWrite then .write
  else if opcode = nvmeCmdZoneAppend then .zoneAppend
  else if opcode = nvmeCmdRead then .read
  else if opcode = nvmeCmdFlush then .flush
  else if opcode = 0x79 then .zoneMgmtSend
  else if opcode = 0x7a then .zoneMgmtRecv
  else .other

/-- The submission entry that carries a command. -/
structure Carries (rw : NvmeRwCommand) (cmd : ZnsCommand) : Prop where
  opcode : znsOpcodeOf rw.opcode = cmd.opcode
  slba : rw.slba = cmd.slba
  length : rw.length = cmd.length

/-- A read, write, append or flush as the zoned handlers see it. -/
def znsRwCommand (rw : NvmeRwCommand) : ZnsCommand where
  opcode := znsOpcodeOf rw.opcode
  slba := rw.slba
  length := rw.length
  fua := rw.control / 2^14 % 2 = 1
  zsa := .other
  selectAll := false
  zsaso := 0
  zra := 0
  zraSpecificField := 0

/-- The handler behind `proc_io_cmd` for such commands; `addr` has the addresses of the buffers. -/
def znsProcIoCmd (clk : Nat → Nat) (spp : SsdParams) (garbage : Nat) (addr : BufferRef → Nat) :
    ProcIoCmd ZnsFtl := fun _ ftl rw sqid wall ret => do
  let out ← znsProcNvmeIoCmd clk spp garbage ftl ⟨znsRwCommand rw, sqid, wall⟩ ret
  return ⟨out.accepted, out.ftl, { rw with slba := out.cmd.slba }, out.ret,
    out.calls.map fun c => ⟨c.nsecsTarget, addr c.buffer, c.buffsToRelease⟩⟩

theorem znsOpcodeOf_read {opcode : Nat} : znsOpcodeOf opcode = .read ↔ opcode = nvmeCmdRead := by
  constructor
  · intro h
    unfold znsOpcodeOf at h
    split at h
    · cases h
    split at h
    · cases h
    split at h
    · assumption
    repeat' split at h
    all_goals cases h
  · rintro rfl
    rfl

theorem Carries.writesData {rw : NvmeRwCommand} {cmd : ZnsCommand} (h : Carries rw cmd) :
    WritesData rw ↔ IsWrite cmd := by
  rw [IsWrite, ← h.opcode]
  unfold WritesData znsOpcodeOf
  constructor
  · rintro (h | h)
    · simp [h]
    · simp [h, nvmeCmdWrite, nvmeCmdZoneAppend]
  · intro h
    split at h
    · exact .inl (by assumption)
    split at h
    · exact .inr (by assumption)
    repeat' split at h
    all_goals simp at h

/-- The zones, the storage, and the commands that are dispatched and not copied, each with its
status. -/
structure CopyState where
  ftl : ZnsFtl
  storage : Nat → UInt8
  pending : List (ZnsCommand × Nat)

/-- The transfer of a write of this namespace reaches storage address `a`. -/
def Touches (mapped : Nat) (cmd : ZnsCommand) (a : Nat) : Prop :=
  behind (mapped + u64 (cmd.slba * lbaSize)) a < lbaToByte (nrLbasFromRwCmd cmd)

/-- The bytes of the LBAs from `lo` up to `hi`. -/
def LbaBytes (mapped lo hi a : Nat) : Prop := mapped + lo * lbaSize ≤ a ∧ a < mapped + hi * lbaSize

/-- Runs without a reset of zone `z` and without a random write area, in which every rejected
write that is copied brings the bytes that are stored already. The namespace is `size` bytes
from `start` on. -/
inductive CopyRun (clk : Nat → Nat) (spp : SsdParams) (ioUsingDma : Bool) (mapped : Nat → Option Nat)
    (start size z : Nat) (s : CopyState) : CopyState → Prop
  | refl : CopyRun clk spp ioUsingDma mapped start size z s s
  | command {ftl : ZnsFtl} {storage : Nat → UInt8} {pending : List (ZnsCommand × Nat)} {garbage : Nat}
      {req : ZnsRequest} {ret : NvmevResult} {out : ZnsOutcome}
      (before : CopyRun clk spp ioUsingDma mapped start size z s ⟨ftl, storage, pending⟩)
      (ask : ¬ AsksZrwa req.cmd) (length : req.cmd.length < 2^16)
      (h : znsProcNvmeIoCmd clk spp garbage ftl req ret = .ok out)
      (keep : ¬ Resets spp ftl req.cmd z) :
      CopyRun clk spp ioUsingDma mapped start size z s
        ⟨out.ftl, storage, if out.accepted then pending ++ [(out.cmd, out.ret.status)] else pending⟩
  | copy {ftl : ZnsFtl} {storage : Nat → UInt8} {pending : List (ZnsCommand × Nat)} {c : ZnsCommand × Nat}
      {rw : NvmeRwCommand} {host : Nat → UInt8} {mem : Memory}
      (before : CopyRun clk spp ioUsingDma mapped start size z s ⟨ftl, storage, pending⟩)
      (hc : c ∈ pending) (carries : Carries rw c.1) (length : rw.length < 2^16)
      (own : mapped (u32 (rw.nsid + (2^32 - 1))) = some start)
      (h : performIo ioUsingDma mapped rw ⟨host, storage⟩ = .ok mem)
      (same : c.2 ≠ nvmeScSuccess → ¬ WritesData rw ∨
        SameData ioUsingDma mapped rw ⟨host, storage⟩ (fun a => start ≤ a ∧ a < start + size)) :
      CopyRun clk spp ioUsingDma mapped start size z s ⟨ftl, mem.storage, pending.erase c⟩
  | release {ftl : ZnsFtl} {storage : Nat → UInt8} {pending : List (ZnsCommand × Nat)}
      (before : CopyRun clk spp ioUsingDma mapped start size z s ⟨ftl, storage, pending⟩)
      (ref : BufferRef) (n : Nat) :
      CopyRun clk spp ioUsingDma mapped start size z s
        ⟨ftl.setBuffer ref (bufferRelease (ftl.buffer ref) n), storage, pending⟩

/-- The bytes of zone `z` below `w` stay as they were in `storage₀`. -/
structure AtRest (start z w : Nat) (storage₀ : Nat → UInt8) (s : CopyState) : Prop where
  wp : w ≤ (s.ftl.zoneDescs z).wp
  pending : ∀ c ∈ s.pending, c.2 = nvmeScSuccess → IsWrite c.1 →
    ∀ a, LbaBytes start (z * lbasPerZone s.ftl.zp) w a → ¬ Touches start c.1 a
  bytes : ∀ a, LbaBytes start (z * lbasPerZone s.ftl.zp) w a → s.storage a = storage₀ a

theorem not_touches {start lo hi a : Nat} {cmd : ZnsCommand} (ha : LbaBytes start lo hi a)
    (hhi : hi ≤ 2^32) (hcmd : cmd.slba + nrLbasFromRwCmd cmd ≤ 2^32)
    (h : cmd.slba + nrLbasFromRwCmd cmd ≤ lo ∨ hi ≤ cmd.slba) : ¬ Touches start cmd a := by
  unfold LbaBytes lbaSize lbaBits at ha
  unfold Touches behind lbaToByte lbaSize lbaBits u64
  omega

/-- Only a write can change its submission entry. -/
theorem not_write_cmd {garbage : Nat} {req : ZnsRequest} {ret : NvmevResult} {out : ZnsOutcome}
    (hw : ¬ IsWrite req.cmd) (h : znsProcNvmeIoCmd clk spp garbage ftl req ret = .ok out) :
    out.cmd = req.cmd := by
  unfold znsProcNvmeIoCmd at h
  cases hc : req.cmd.opcode <;> rw [hc] at h
  case write => exact absurd (.inl hc) hw
  case zoneAppend => exact absurd (.inr hc) hw
  case read =>
    simp only [znsRead, pure_eq_ok] at h
    split at h
    · cases h
    obtain ⟨_, _, h⟩ := bind_eq_ok.mp h
    obtain ⟨_, _, h⟩ := bind_eq_ok.mp h
    cases h
    rfl
  case flush =>
    cases h
    rfl
  case zoneMgmtSend =>
    obtain ⟨_, _, h⟩ := bind_eq_ok.mp h
    cases h
    rfl
  case zoneMgmtRecv =>
    cases h
    rfl
  case other =>
    cases h
    rfl

section Steps

variable {start size z w : Nat} {storage storage₀ : Nat → UInt8} {pending : List (ZnsCommand × Nat)}
  {garbage : Nat} {req : ZnsRequest} {ret : NvmevResult} {out : ZnsOutcome} {mapped : Nat → Option Nat}
  {ioUsingDma : Bool}

/-- The range of a write that succeeds lies above the write pointer of its zone. -/
theorem succeeds_not_touches (k : ZnsOk spp ftl leak) (p : PointersOk spp ftl)
    (hplain : ∀ z, (ftl.zoneDescs z).zrwav = false) (hlen : req.cmd.length < 2^16)
    (h : znsProcNvmeIoCmd clk spp garbage ftl req ret = .ok out) (hs : Succeeds req.cmd out)
    (hz : z < ftl.zp.nrZones) (hw : w ≤ (ftl.zoneDescs z).wp) {a : Nat}
    (ha : LbaBytes start (z * lbasPerZone ftl.zp) w a) : ¬ Touches start out.cmd a := by
  obtain ⟨hzid, hslba, wr⟩ := succeeds_written k hplain hlen h hs
  have hlength : out.cmd.length = req.cmd.length := by
    obtain ⟨_, hcase⟩ := write_plain hplain hs.1 h
    cases hcase <;> rfl
  have hn : nrLbasFromRwCmd out.cmd = nrLbasFromRwCmd req.cmd := by
    rw [nrLbasFromRwCmd, hlength]
    rfl
  have hin := wr.inside p hlen hzid (hplain _)
  have hend := p.addressable.zone_end_le hzid
  have hup := (p.pointers z hz).upper (hplain z)
  have hzend := p.addressable.zone_end_le hz
  have hlo := (p.pointers _ hzid).lower (hplain _)
  rw [p.zoneEnd_eq hzid] at hin
  rw [p.zoneEnd_eq hz] at hup
  rw [p.zslba _ hzid, ← wr.checks.wp] at hlo
  refine not_touches ha (by omega) (by rw [hn, hslba]; omega) ?_
  rw [hn, hslba]
  rcases Nat.lt_trichotomy (zoneOf spp ftl req.cmd) z with hlt | heq | hgt
  · have hzones := Nat.mul_le_mul_right (lbasPerZone ftl.zp) (Nat.succ_le_of_lt hlt)
    rw [Nat.succ_mul] at hzones
    exact .inl (Nat.le_trans hin hzones)
  · refine .inr (Nat.le_trans hw ?_)
    rw [wr.checks.wp, heq]
  · have hzones := Nat.mul_le_mul_right (lbasPerZone ftl.zp) (Nat.succ_le_of_lt hgt)
    rw [Nat.succ_mul] at hzones
    exact .inr (by omega)

theorem AtRest.command (r : AtRest start z w storage₀ ⟨ftl, storage, pending⟩) (k : ZnsOk spp ftl leak)
    (p : PointersOk spp ftl) (hplain : ∀ z, (ftl.zoneDescs z).zrwav = false) (hz : z < ftl.zp.nrZones)
    (hask : ¬ AsksZrwa req.cmd) (hlen : req.cmd.length < 2^16)
    (h : znsProcNvmeIoCmd clk spp garbage ftl req ret = .ok out) (keep : ¬ Resets spp ftl req.cmd z) :
    AtRest start z w storage₀ ⟨out.ftl, storage,
      if out.accepted then pending ++ [(out.cmd, out.ret.status)] else pending⟩ := by
  have hzp := (znsProcNvmeIoCmd_kept k hlen h).zp
  have hwp : w ≤ (out.ftl.zoneDescs z).wp := by
    by_cases hw : IsWrite req.cmd
    · by_cases hs : Succeeds req.cmd out
      · obtain ⟨hzid, _, wr⟩ := succeeds_written k hplain hlen h hs
        by_cases hne : z = zoneOf spp ftl req.cmd
        · obtain ⟨st, _, hd⟩ := wr.zone
          have hle := r.wp
          simp only at hle
          rw [hne, ← wr.checks.wp] at hle
          rw [hne, hd, wr.wp p hlen hzid (hplain _)]
          exact Nat.le_trans hle (Nat.le_add_right _ _)
        · rw [wr.others z hne]
          exact r.wp
      · rw [write_failed k hplain hw h hs]
        exact r.wp
    · rw [((not_write_wp k p hplain hask hw h).2.2 z hz).2 keep]
      exact r.wp
  refine ⟨hwp, ?_, ?_⟩
  · simp only [hzp]
    intro c hc hok hcw
    have hnew : c ∈ pending ∨ out.accepted = true ∧ c = (out.cmd, out.ret.status) := by
      split at hc
      · rename_i hacc
        rcases List.mem_append.mp hc with hc | hc
        · exact .inl hc
        · exact .inr ⟨hacc, List.mem_singleton.mp hc⟩
      · exact .inl hc
    rcases hnew with hc | ⟨hacc, rfl⟩
    · exact r.pending c hc hok hcw
    · intro a ha
      refine succeeds_not_touches k p hplain hlen h ⟨?_, hacc, hok⟩ hz r.wp ha
      by_contra hw
      rw [not_write_cmd hw h] at hcw
      exact hw hcw
  · simp only [hzp]
    exact r.bytes

theorem AtRest.copy {c : ZnsCommand × Nat} {rw : NvmeRwCommand} {host : Nat → UInt8} {mem : Memory}
    (r : AtRest start z w storage₀ ⟨ftl, storage, pending⟩) (hdma : ioUsingDma = true → start = 0)
    (hfit : w * lbaSize ≤ size) (hc : c ∈ pending) (carries : Carries rw c.1) (hlen : rw.length < 2^16)
    (own : mapped (u32 (rw.nsid + (2^32 - 1))) = some start)
    (h : performIo ioUsingDma mapped rw ⟨host, storage⟩ = .ok mem)
    (same : c.2 ≠ nvmeScSuccess → ¬ WritesData rw ∨
      SameData ioUsingDma mapped rw ⟨host, storage⟩ (fun a => start ≤ a ∧ a < start + size)) :
    AtRest start z w storage₀ ⟨ftl, mem.storage, pending.erase c⟩ := by
  refine ⟨r.wp, fun c' hc' => r.pending c' (List.mem_of_mem_erase hc'), fun a ha => ?_⟩
  refine Eq.trans ?_ (r.bytes a ha)
  by_cases hok : c.2 = nvmeScSuccess
  · by_cases hw : WritesData rw
    · have hstart : transferStart ioUsingDma mapped rw = some (start + cmdIoOffset rw) := by
        unfold transferStart
        cases hd : ioUsingDma with
        | true => rw [if_pos rfl, hdma hd, Nat.zero_add]
        | false => rw [if_neg (by decide), own, Option.map_some]
      have hn := r.pending c hc hok (carries.writesData.mp hw) a ha
      rw [Touches, ← carries.slba, nrLbasFromRwCmd, ← carries.length] at hn
      exact performIo_outside hlen h hstart (Nat.le_of_not_lt hn)
    · rw [performIo_storage hw h]
  · have hin : start ≤ a ∧ a < start + size := by
      obtain ⟨h₁, h₂⟩ := ha
      omega
    exact (performIo_unchanged_iff hlen h _).mpr (same hok) a hin

end Steps

theorem ZnsReachable.fits {cfg : ZnsConfig} {old : ZnsParams} {size : Nat}
    {Allowed : ZnsFtl → ZnsCommand → Prop} (h : ZnsReachable clk cfg old size spp Allowed ftl) :
    ftl.zp.nrZones * ftl.zp.zoneSize ≤ size := by
  induction h with
  | init h =>
    unfold znsInitNamespace at h
    obtain ⟨spp', hspp, h⟩ := bind_eq_ok.mp h
    obtain ⟨zp, hzp, h⟩ := bind_eq_ok.mp h
    cases h
    exact (znsInitParams_zoned (ssdInitParams_checked hspp).paged hzp).2
  | command before allowed length h ih =>
    obtain ⟨leak, k⟩ := before.ok
    rw [(znsProcNvmeIoCmd_kept k length h).zp]
    exact ih
  | release before ref n ih =>
    rw [ZnsFtl.setBuffer_zp]
    exact ih

theorem ZnsReachable.lba_fits {cfg : ZnsConfig} {old : ZnsParams} {size : Nat}
    {Allowed : ZnsFtl → ZnsCommand → Prop} (h : ZnsReachable clk cfg old size spp Allowed ftl) {lba : Nat}
    (hlba : lba ≤ ftl.zp.nrZones * lbasPerZone ftl.zp) : lba * lbaSize ≤ size := by
  calc lba * lbaSize ≤ ftl.zp.nrZones * lbasPerZone ftl.zp * lbaSize := Nat.mul_le_mul_right _ hlba
    _ = ftl.zp.nrZones * (lbasPerZone ftl.zp * lbaSize) := Nat.mul_assoc _ _ _
    _ ≤ ftl.zp.nrZones * ftl.zp.zoneSize := Nat.mul_le_mul_left _ (Nat.div_mul_le_self _ _)
    _ ≤ size := h.fits

theorem CopyRun.reachable {cfg : ZnsConfig} {old : ZnsParams} {size start z : Nat} {ioUsingDma : Bool}
    {mapped : Nat → Option Nat} {s s' : CopyState}
    (h : CopyRun clk spp ioUsingDma mapped start size z s s')
    (hs : ZnsReachable clk cfg old size spp (fun _ cmd => ¬ AsksZrwa cmd) s.ftl) :
    ZnsReachable clk cfg old size spp (fun _ cmd => ¬ AsksZrwa cmd) s'.ftl := by
  induction h with
  | refl => exact hs
  | command before ask length h keep ih => exact .command ih ask length h
  | copy before hc carries length own h same ih => exact ih
  | release before ref n ih => exact .release ih ref n

/-- The data of a zone that is at rest stays as it is until the zone is reset. -/
theorem CopyRun.unchanged {cfg : ZnsConfig} {old : ZnsParams} {size start z : Nat} {ioUsingDma : Bool}
    {mapped : Nat → Option Nat} {s s' : CopyState} (hsmall : size / lbaSize < 2^32)
    (hdma : ioUsingDma = true → start = 0)
    (hs : ZnsReachable clk cfg old size spp (fun _ cmd => ¬ AsksZrwa cmd) s.ftl)
    (hz : z < s.ftl.zp.nrZones) (hrest : ∀ c ∈ s.pending, c.2 = nvmeScSuccess → IsWrite c.1 →
      ∀ a, LbaBytes start (s.ftl.zoneDescs z).zslba (s.ftl.zoneDescs z).wp a → ¬ Touches start c.1 a)
    (h : CopyRun clk spp ioUsingDma mapped start size z s s') :
    ∀ a, LbaBytes start (s.ftl.zoneDescs z).zslba (s.ftl.zoneDescs z).wp a →
      s'.storage a = s.storage a := by
  have p := hs.pointers hsmall
  have hplain := hs.plain (fun _ _ ha => ha)
  have hup := (p.pointers z hz).upper (hplain z)
  have hslba := p.zslba z hz
  rw [p.zoneEnd_eq hz] at hup
  rw [hslba] at hrest ⊢
  have hfit : (s.ftl.zoneDescs z).wp * lbaSize ≤ size := by
    have hzones := Nat.mul_le_mul_right (lbasPerZone s.ftl.zp) (Nat.succ_le_of_lt hz)
    rw [Nat.succ_mul] at hzones
    exact hs.lba_fits (Nat.le_trans hup hzones)
  have rest : AtRest start z (s.ftl.zoneDescs z).wp s.storage s' ∧ s'.ftl.zp = s.ftl.zp := by
    induction h with
    | refl => exact ⟨⟨Nat.le_refl _, hrest, fun _ _ => rfl⟩, rfl⟩
    | @command ftl storage pending garbage req ret out before ask length h keep ih =>
      obtain ⟨ih, hzp⟩ := ih
      have hr := before.reachable hs
      obtain ⟨leak, k⟩ := hr.ok
      exact ⟨ih.command k (hr.pointers hsmall) (hr.plain (fun _ _ ha => ha)) (by rw [hzp]; exact hz) ask
        length h keep, (znsProcNvmeIoCmd_kept k length h).zp.trans hzp⟩
    | copy before hc carries length own h same ih =>
      exact ⟨ih.1.copy hdma hfit hc carries length own h same, ih.2⟩
    | release before ref n ih =>
      obtain ⟨ih, hzp⟩ := ih
      refine ⟨⟨?_, ?_, ?_⟩, (ZnsFtl.setBuffer_zp _ _ _).trans hzp⟩
      · rw [ZnsFtl.setBuffer_zoneDescs]
        exact ih.wp
      · rw [ZnsFtl.setBuffer_zp]
        exact ih.pending
      · rw [ZnsFtl.setBuffer_zp]
        exact ih.bytes
  have hbytes := rest.1.bytes
  rw [rest.2] at hbytes
  exact hbytes

/-- The transfer of a rejected command leaves a region alone exactly when the command is no write
or brings nothing new there. In runs whose rejected writes bring nothing new the data of a zone
stays as it is until the zone is reset. -/
theorem rejected_copies {σ : Type} (proc : ProcIoCmd σ) (d : Dispatcher σ) (sq sq' : SubmissionQueue)
    (sqes : Nat → Option SubmissionQueue) (sqid sqEntry wall now time e : Nat) (o : HandlerOutcome σ)
    (worker : IoWorker) (mem mem' : Memory) (clk : Nat → Nat) (cfg : ZnsConfig) (old : ZnsParams)
    (spp : SsdParams) (s s' : CopyState) (ioUsingDma : Bool) (mapped : Nat → Option Nat)
    (start size z : Nat) :
    (Rejected proc d sq sqid sqEntry wall now o worker e →
      sqes sqid = some sq' → sq'.sq sqEntry = o.cmd → o.cmd.length < 2^16 →
      performActions ioUsingDma mapped sqes (workerTurn worker e time).2.2 mem = .ok mem' →
      ((∀ a, start ≤ a ∧ a < start + size → mem'.storage a = mem.storage a) ↔
        ¬ WritesData o.cmd ∨
          SameData ioUsingDma mapped o.cmd mem (fun a => start ≤ a ∧ a < start + size))) ∧
    (size / lbaSize < 2^32 → (ioUsingDma = true → start = 0) →
      ZnsReachable clk cfg old size spp (fun _ cmd => ¬ AsksZrwa cmd) s.ftl → z < s.ftl.zp.nrZones →
      (∀ c ∈ s.pending, c.2 = nvmeScSuccess → IsWrite c.1 →
        ∀ a, LbaBytes start (s.ftl.zoneDescs z).zslba (s.ftl.zoneDescs z).wp a → ¬ Touches start c.1 a) →
      CopyRun clk spp ioUsingDma mapped start size z s s' →
      ∀ a, LbaBytes start (s.ftl.zoneDescs z).zslba (s.ftl.zoneDescs z).wp a →
        s'.storage a = s.storage a) := by
  constructor
  · intro r hsq hcmd hlen h
    have hio := r.transfers hsq h
    rw [hcmd] at hio
    exact performIo_unchanged_iff hlen hio _
  · intro hsmall hdma hs hz hrest h
    exact h.unchanged hsmall hdma hs hz hrest

/-- Eight LBAs at LBA 0, from host address 4096. -/
def writeZero : NvmeRwCommand := ⟨nvmeCmdWrite, 7, 1, 4096, 0, 0, 7, 0⟩

def writeZeroQueue : SubmissionQueue := ⟨1, 1024, fun _ => writeZero, ⟨0, 0, 0, 0, 0⟩⟩

def writeZeroRequest : ZnsRequest := ⟨znsRwCommand writeZero, 1, 0⟩

def writeZeroProc (spp : SsdParams) : ProcIoCmd ZnsFtl := znsProcIoCmd (fun _ => 0) spp 0 (fun _ => 0)

def writeZeroDispatcher (ftl : ZnsFtl) : Dispatcher ZnsFtl :=
  ⟨nvmevIoWorkerInit 1, ftl, fun sqid => if sqid = 1 then some writeZeroQueue else none⟩

/-- The write is made twice. The second one, below the write pointer, is dispatched and copied. -/
def writeTwice (mem : Memory) : Except Fault (SsdParams × ZnsFtl × ZnsOutcome × HandlerOutcome ZnsFtl ×
    Dispatcher ZnsFtl × Memory) := do
  let (spp, ftl) ← znsInitNamespace wdZn540 zeroedParams (2^32)
  let out ← znsProcNvmeIoCmd (fun _ => 0) spp 0 ftl writeZeroRequest ⟨0, 0⟩
  let o ← handled (writeZeroProc spp) (writeZeroDispatcher out.ftl) writeZeroQueue 1 0 0
  let (d, _) ← nvmevProcIo (writeZeroProc spp) (writeZeroDispatcher out.ftl) 1 0 0 0
  let mem ← performActions false (fun _ => some 0) d.sqes (workerTurn (d.io.ioWorkers 0) 0 0).2.2 mem
  return (spp, ftl, out, o, d, mem)

def writeTwiceOk (expect : UInt8) : SsdParams × ZnsFtl × ZnsOutcome × HandlerOutcome ZnsFtl ×
    Dispatcher ZnsFtl × Memory → Bool
  | (_, _, out, o, d, mem) => decide (0 < out.ftl.zp.nrZones) && decide ((out.ftl.zoneDescs 0).zslba = 0) &&
    decide ((out.ftl.zoneDescs 0).wp = 8) && o.accepted &&
    decide (o.ret.status ≠ nvmeScSuccess) && decide (o.cmd = writeZero) &&
    decide (((d.io.ioWorkers 0).workQueue 0).data =
      (requestWork 1 1 0 o.cmd.commandId 0 0 o.ret (initWork 0)).data) &&
    decide ((d.sqes 1).map (fun sq => sq.sq 0) = some writeZero) && decide (mem.storage 0 = expect)

/-- The second write: rejected, with a work entry of its own, in a zone written up to LBA 8. -/
structure SecondWrite (spp : SsdParams) (ftl : ZnsFtl) (o : HandlerOutcome ZnsFtl)
    (d : Dispatcher ZnsFtl) : Prop where
  reachable : ZnsReachable (fun _ => 0) wdZn540 zeroedParams (2^32) spp (fun _ cmd => ¬ AsksZrwa cmd) ftl
  zones : 0 < ftl.zp.nrZones
  zslba : (ftl.zoneDescs 0).zslba = 0
  wp : (ftl.zoneDescs 0).wp = 8
  rejected : Rejected (writeZeroProc spp) (writeZeroDispatcher ftl) writeZeroQueue 1 0 0 0 o
    (d.io.ioWorkers 0) 0
  cmd : o.cmd = writeZero
  slot : ∃ sq, d.sqes 1 = some sq ∧ sq.sq 0 = writeZero

theorem writeTwice_spec {mem : Memory} {expect : UInt8}
    (hrun : check (writeTwiceOk expect) (writeTwice mem) = true) :
    ∃ (spp : SsdParams) (ftl : ZnsFtl) (o : HandlerOutcome ZnsFtl) (d : Dispatcher ZnsFtl) (mem' : Memory),
      SecondWrite spp ftl o d ∧
      performActions false (fun _ => some 0) d.sqes (workerTurn (d.io.ioWorkers 0) 0 0).2.2 mem =
        .ok mem' ∧ mem'.storage 0 = expect := by
  obtain ⟨r, hr, hp⟩ := exists_of_check hrun
  unfold writeTwice at hr
  obtain ⟨⟨spp, ftl⟩, hinit, hr⟩ := bind_eq_ok.mp hr
  obtain ⟨out, hproc, hr⟩ := bind_eq_ok.mp hr
  obtain ⟨o, ho, hr⟩ := bind_eq_ok.mp hr
  obtain ⟨⟨d, _⟩, _, hr⟩ := bind_eq_ok.mp hr
  obtain ⟨mem', hmem, hr⟩ := bind_eq_ok.mp hr
  cases hr
  simp only [writeTwiceOk, Bool.and_eq_true, decide_eq_true_eq, Option.map_eq_some_iff] at hp
  obtain ⟨⟨⟨⟨⟨⟨⟨⟨hzones, hzslba⟩, hwp⟩, hacc⟩, hfail⟩, hcmd⟩, hdata⟩, hslot⟩, hbyte⟩ := hp
  have hask : ¬ AsksZrwa writeZeroRequest.cmd := by
    intro h
    cases h.1
  exact ⟨spp, out.ftl, o, d, mem',
    { reachable := .command (.init hinit) hask (by decide) hproc
      zones := hzones
      zslba := hzslba
      wp := hwp
      rejected := ⟨ho, hacc, hfail, initWork 0, hdata⟩
      cmd := hcmd
      slot := hslot }, hmem, hbyte⟩

/-- The second write is rejected and changes the byte all the same. -/
theorem rejected_write_copied :
    ∃ (spp : SsdParams) (ftl : ZnsFtl) (o : HandlerOutcome ZnsFtl) (d : Dispatcher ZnsFtl) (mem' : Memory),
      SecondWrite spp ftl o d ∧
      performActions false (fun _ => some 0) d.sqes (workerTurn (d.io.ioWorkers 0) 0 0).2.2
        ⟨fun _ => 1, fun _ => 0⟩ = .ok mem' ∧ mem'.storage 0 = 1 :=
  writeTwice_spec (by decide +kernel)

/-- The second write as a run: dispatched, then copied from memory `mem`. -/
theorem SecondWrite.run {spp : SsdParams} {ftl : ZnsFtl} {o : HandlerOutcome ZnsFtl}
    {d : Dispatcher ZnsFtl} {mem mem' : Memory} (h : SecondWrite spp ftl o d)
    (hio : performIo false (fun _ => some 0) writeZero mem = .ok mem')
    (same : SameData false (fun _ => some 0) writeZero mem (fun a => 0 ≤ a ∧ a < 0 + 2^32)) :
    ∃ ftl', CopyRun (fun _ => 0) spp false (fun _ => some 0) 0 (2^32) 0 ⟨ftl, mem.storage, []⟩
      ⟨ftl', mem'.storage, []⟩ := by
  obtain ⟨out, hproc, ho⟩ := bind_eq_ok.mp h.rejected.handled
  cases ho
  have hacc := h.rejected.accepted
  have hplain := h.reachable.plain (fun _ _ ha => ha)
  have hw : IsWrite writeZeroRequest.cmd := .inl rfl
  have hcarries : Carries writeZero out.cmd := by
    have hslba : out.cmd.slba = 0 := congrArg NvmeRwCommand.slba h.cmd
    obtain ⟨_, hcase⟩ := write_plain hplain hw hproc
    refine ⟨?_, hslba.symm, ?_⟩
    · cases hcase <;> rfl
    · cases hcase <;> rfl
  have hrun : CopyRun (fun _ => 0) spp false (fun _ => some 0) 0 (2^32) 0 ⟨ftl, mem.storage, []⟩
      ⟨out.ftl, mem.storage, if out.accepted then [] ++ [(out.cmd, out.ret.status)] else []⟩ :=
    .command .refl (fun ha => by cases ha.1) (by decide) hproc (hw.not_resets 0)
  rw [if_pos hacc, List.nil_append] at hrun
  have hcopy := hrun.copy (List.mem_singleton_self _) hcarries (by decide) rfl hio (fun _ => .inr same)
  rw [List.erase_cons_head] at hcopy
  exact ⟨out.ftl, hcopy⟩

theorem rejected_copies_same :
    ∃ (spp : SsdParams) (ftl ftl' : ZnsFtl) (o : HandlerOutcome ZnsFtl) (d : Dispatcher ZnsFtl)
      (mem' : Memory), SecondWrite spp ftl o d ∧
      performActions false (fun _ => some 0) d.sqes (workerTurn (d.io.ioWorkers 0) 0 0).2.2
        ⟨fun _ => 0, fun _ => 0⟩ = .ok mem' ∧
      (∀ a, 0 ≤ a ∧ a < 0 + 2^32 → mem'.storage a = 0) ∧
      CopyRun (fun _ => 0) spp false (fun _ => some 0) 0 (2^32) 0 ⟨ftl, fun _ => 0, []⟩
        ⟨ftl', mem'.storage, []⟩ ∧
      ∀ a, LbaBytes 0 0 8 a → mem'.storage a = 0 := by
  obtain ⟨spp, ftl, o, d, mem', hsecond, hmem, _⟩ :=
    writeTwice_spec (show check (writeTwiceOk 0) (writeTwice ⟨fun _ => 0, fun _ => 0⟩) = true by
      decide +kernel)
  obtain ⟨sq, hsq, hslot⟩ := hsecond.slot
  have same : SameData false (fun _ => some 0) writeZero ⟨fun _ => 0, fun _ => 0⟩
      (fun a => 0 ≤ a ∧ a < 0 + 2^32) := fun _ _ _ _ _ _ _ _ _ => rfl
  have hio := hsecond.rejected.transfers hsq hmem
  rw [hslot] at hio
  obtain ⟨ftl', hrun⟩ := hsecond.run hio same
  have h := rejected_copies (writeZeroProc spp) (writeZeroDispatcher ftl) writeZeroQueue sq d.sqes 1 0 0 0 0
    0 o (d.io.ioWorkers 0) ⟨fun _ => 0, fun _ => 0⟩ mem' (fun _ => 0) wdZn540 zeroedParams spp
    ⟨ftl, fun _ => 0, []⟩ ⟨ftl', mem'.storage, []⟩ false (fun _ => some 0) 0 (2^32) 0
  have h₁ := (h.1 hsecond.rejected hsq (hslot.trans hsecond.cmd.symm) (by rw [hsecond.cmd]; decide)
    hmem).mpr (.inr (by rw [hsecond.cmd]; exact same))
  have h₂ := h.2 (by decide) (by decide) hsecond.reachable hsecond.zones
    (fun _ h => absurd h List.not_mem_nil) hrun
  simp only [hsecond.zslba, hsecond.wp] at h₂
  exact ⟨spp, ftl, ftl', o, d, mem', hsecond, hmem, h₁, hrun, h₂⟩

end NVMeVirt
