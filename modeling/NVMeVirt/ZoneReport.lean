import NVMeVirt.IoCopy
import NVMeVirt.Lib.LittleEndian
import NVMeVirt.ZoneAddresses

/-!
# Zone management receive

`zns_mgmt_recv.c`. The report is put together in `report_buffer` and copied to the host. How many
descriptors go into it and how many bytes are copied come from the command.
-/

namespace NVMeVirt
set_option autoImplicit false
open Outcome Gather Ranges LittleEndian

variable {clk : Nat → Nat} {spp : SsdParams} {ftl : ZnsFtl}

/-- The fields of the command that the handler reads. -/
structure NvmeZoneMgmtRecv where
  prp1 : Nat
  prp2 : Nat
  slba : Nat
  nrDw : Nat
  zra : Nat
  zraSpecificField : Nat
  zraSpecificFeatures : Bool
  deriving Repr, DecidableEq

def NvmeZoneMgmtRecv.toZnsCommand (cmd : NvmeZoneMgmtRecv) : ZnsCommand :=
  ⟨.zoneMgmtRecv, cmd.slba, 0, false, .other, false, 0, cmd.zra, cmd.zraSpecificField⟩

/-- `enum zone_state`. -/
def ZoneState.code : ZoneState → Nat
  | .empty => 0x1
  | .openedImpl => 0x2
  | .openedExpl => 0x3
  | .closed => 0x4
  | .readOnly => 0xD
  | .full => 0xE
  | .offline => 0xF

/-- Byte `j` of the 64 bytes of `struct zone_descriptor`. The type is that of every zone, and of the
attributes only `zrwav` is ever set. -/
def ZoneDescriptor.byte (d : ZoneDescriptor) (j : Nat) : UInt8 :=
  if j = 0 then 0x2
  else if j = 1 then UInt8.ofNat (16 * d.state.code)
  else if j = 2 then (if d.zrwav then 0x8 else 0)
  else if j < 8 then 0
  else if j < 16 then digit d.zoneCapacity (j - 8)
  else if j < 24 then digit d.zslba (j - 16)
  else if j < 32 then digit d.wp (j - 24)
  else 0

/-- `sizeof(struct zone_report)`, which has one descriptor in it, and the descriptors. -/
def reportBufferSize (zp : ZnsParams) : Nat := 128 + 64 * zp.nrZones

def bytesTransfer (cmd : NvmeZoneMgmtRecv) : Nat := u32 (cmd.nrDw + 1) * 4

section Report

variable (spp : SsdParams)

def nrZoneToReport (zp : ZnsParams) (cmd : NvmeZoneMgmtRecv) : Nat :=
  if cmd.zraSpecificFeatures = false then u64 (zp.nrZones + (2^64 - lbaToZone spp zp cmd.slba))
  else u64 (bytesTransfer cmd / 64 + (2^64 - 1))

/-- The size of the `memcpy` of the descriptors. -/
def descriptorBytes (zp : ZnsParams) (cmd : NvmeZoneMgmtRecv) : Nat := u64 (64 * nrZoneToReport spp zp cmd)

/-- `__fill_zone_report`: the number of zones, and descriptors from offset 64 on. -/
def fillZoneReport (ftl : ZnsFtl) (cmd : NvmeZoneMgmtRecv) (report : Nat → UInt8) : Nat → UInt8 := fun a =>
  if a < 8 then digit (nrZoneToReport spp ftl.zp cmd) a
  else if 64 ≤ a ∧ a < 64 + descriptorBytes spp ftl.zp cmd then
    (ftl.zoneDescs (lbaToZone spp ftl.zp cmd.slba + (a - 64) / 64)).byte ((a - 64) % 64)
  else report a

end Report

/-- The loop of `__prp_transfer_data` with `io` 0: what it copies out of `buffer` until it ends, or until
it follows a list that there is not. -/
def prpTransferLoop (prps : NvmeRwCommand) (buffer : Nat → UInt8) :
    Nat → PrpCursor → Nat → Nat → (Nat → UInt8) → List Piece × Except Fault (Nat → UInt8)
  | 0, _, _, remaining, host => ([], if remaining = 0 then .ok host else .error .outOfFuel)
  | fuel + 1, c, offset, remaining, host =>
    if remaining = 0 then ([], .ok host)
    else
      match nextPrp host prps c remaining with
      | .error e => ([], .error e)
      | .ok (c, paddr) =>
        let ioSize := pieceSize paddr remaining
        let rest := prpTransferLoop prps buffer fuel c (offset + ioSize) (remaining - ioSize)
          (fun a => if paddr ≤ a ∧ a < paddr + ioSize then buffer (offset + (a - paddr)) else host a)
        (⟨offset, paddr, ioSize⟩ :: rest.1, rest.2)

def prpTransferData (prp1 prp2 : Nat) (buffer : Nat → UInt8) (length : Nat) (host : Nat → UInt8) :
    List Piece × Except Fault (Nat → UInt8) :=
  prpTransferLoop ⟨0, 0, 0, prp1, prp2, 0, 0, 0⟩ buffer length .start 0 length host

/-- The report buffer and the host memory after a command, with what the two copies touched: the bytes of
descriptors that went into the report and the pieces of it that went to the host. -/
structure RecvOutcome where
  ret : NvmevResult
  report : Nat → UInt8
  copied : Nat
  sent : List Piece
  host : Except Fault (Nat → UInt8)

variable (spp) in
def znsZmgmtRecvReport (ftl : ZnsFtl) (cmd : NvmeZoneMgmtRecv) (nsecsStart : Nat)
    (report host : Nat → UInt8) : RecvOutcome :=
  if checkZmgmtRcvOptionSupported spp ftl.zp cmd.toZnsCommand then
    let buffer := fillZoneReport spp ftl cmd report
    let (sent, host) := prpTransferData cmd.prp1 cmd.prp2 buffer (bytesTransfer cmd) host
    ⟨⟨nvmeScSuccess, nsecsStart⟩, buffer, descriptorBytes spp ftl.zp cmd, sent, host⟩
  else ⟨⟨nvmeScInvalidField, nsecsStart⟩, report, 0, [], .ok host⟩

/-- What a report should be. It starts at the zone of `slba`, and `report_buffer` is where both copies
stay. -/
structure ReportedRight (spp : SsdParams) (ftl : ZnsFtl) (cmd : NvmeZoneMgmtRecv)
    (o : RecvOutcome) : Prop where
  start : (ftl.zoneDescs (lbaToZone spp ftl.zp cmd.slba)).zslba ≤ cmd.slba ∧
    cmd.slba < (ftl.zoneDescs (lbaToZone spp ftl.zp cmd.slba)).zslba +
      (ftl.zoneDescs (lbaToZone spp ftl.zp cmd.slba)).zoneCapacity
  nrZones : hostU64 o.report 0 =
    if cmd.zraSpecificFeatures = false then ftl.zp.nrZones - lbaToZone spp ftl.zp cmd.slba
    else min (ftl.zp.nrZones - lbaToZone spp ftl.zp cmd.slba) (((cmd.nrDw + 1) * 4 - 64) / 64)
  descriptors : ∀ i < hostU64 o.report 0, ∀ j < 64,
    o.report (64 + 64 * i + j) = (ftl.zoneDescs (lbaToZone spp ftl.zp cmd.slba + i)).byte j
  source : 64 * lbaToZone spp ftl.zp cmd.slba + o.copied ≤ 64 * ftl.zp.nrZones
  copy : 64 + o.copied ≤ reportBufferSize ftl.zp
  sent : ∀ p ∈ o.sent, p.offset + p.size ≤ reportBufferSize ftl.zp

/-- The bytes that the transfer comes to. An entry `prp2` that is not at the start of a page and too small
for the rest ends it early, since the loop then goes on with a list that there is not. -/
def prpReach (prp1 prp2 length : Nat) : Nat :=
  let rest := length - pieceSize prp1 length
  if rest ≤ pageSize ∧ pageSize < rest + prp2 % pageSize then
    pieceSize prp1 length + (pageSize - prp2 % pageSize)
  else length

/-- The command asks for what there is. -/
structure ReportFits (spp : SsdParams) (zp : ZnsParams) (cmd : NvmeZoneMgmtRecv) : Prop where
  zone : cmd.slba / lbasPerZone zp < 2^32
  part : cmd.zraSpecificFeatures = true →
    64 ≤ bytesTransfer cmd ∧ bytesTransfer cmd / 64 - 1 ≤ zp.nrZones - lbaToZone spp zp cmd.slba
  length : prpReach cmd.prp1 cmd.prp2 (bytesTransfer cmd) ≤ reportBufferSize zp

section Transfer

variable {prps : NvmeRwCommand} {buffer : Nat → UInt8}

theorem prpTransferLoop_zero (fuel : Nat) (c : PrpCursor) (offset : Nat) (host : Nat → UInt8) :
    (prpTransferLoop prps buffer fuel c offset 0 host).1 = [] := by
  cases fuel with
  | zero => rfl
  | succ fuel => rw [prpTransferLoop, if_pos rfl]

theorem prpTransferLoop_piece {c d : PrpCursor} {offset remaining paddr fuel hi : Nat} {host : Nat → UInt8}
    (hne : remaining ≠ 0) (hnext : nextPrp host prps c remaining = .ok (d, paddr))
    (hrest : ∀ host', Laid (offset + pieceSize paddr remaining) (prpTransferLoop prps buffer fuel d
      (offset + pieceSize paddr remaining) (remaining - pieceSize paddr remaining) host').1 hi) :
    Laid offset (prpTransferLoop prps buffer (fuel + 1) c offset remaining host).1 hi := by
  rw [prpTransferLoop, if_neg hne, hnext]
  exact ⟨rfl, pieceSize_pos hne, hrest _⟩

theorem prpTransferLoop_end {c d : PrpCursor} {offset remaining paddr fuel : Nat} {host : Nat → UInt8}
    (hne : remaining ≠ 0) (hnext : nextPrp host prps c remaining = .ok (d, paddr))
    (hrest : ∀ n host', 0 < n → n ≤ remaining → Laid (offset + n) (prpTransferLoop prps buffer fuel d
      (offset + n) (remaining - n) host').1 (offset + n + (remaining - n))) :
    Laid offset (prpTransferLoop prps buffer (fuel + 1) c offset remaining host).1 (offset + remaining) := by
  apply prpTransferLoop_piece hne hnext
  intro host'
  have hle := pieceSize_le paddr remaining
  have hend := hrest _ host' (pieceSize_pos hne) hle
  rwa [Nat.add_assoc, Nat.add_sub_of_le hle] at hend

theorem prpTransferLoop_listed {fuel : Nat} {l : Nat} {c : PrpCursor} {offset remaining : Nat}
    {host : Nat → UInt8} (hlist : c.paddrList = some l) (hoffs : 2 ≤ c.prpOffs) (hfuel : remaining ≤ fuel) :
    Laid offset (prpTransferLoop prps buffer fuel c offset remaining host).1 (offset + remaining) := by
  induction fuel generalizing c offset remaining host with
  | zero =>
    obtain rfl : remaining = 0 := by omega
    exact rfl
  | succ fuel ih =>
    by_cases hne : remaining = 0
    · subst hne
      rw [prpTransferLoop_zero]
      exact rfl
    · have hnext : nextPrp host prps c remaining =
          .ok (⟨c.prpOffs + 1, c.prp2Offs + 1, some l⟩, hostU64 host (l + 8 * c.prp2Offs)) := by
        unfold nextPrp
        dsimp only
        rw [if_neg (by omega), if_neg (by omega), hlist]
      apply prpTransferLoop_end hne hnext
      intro n host' hpos hle
      exact ih rfl (Nat.le_succ_of_le hoffs) (by omega)

variable {fuel first remaining : Nat} {host : Nat → UInt8}

/-- What is left after the first entry is more than a page: the second one is a list. -/
theorem prpTransferLoop_list (hlist : pageSize < remaining) (hfuel : remaining ≤ fuel + 1) :
    Laid first (prpTransferLoop prps buffer (fuel + 1) ⟨1, 0, none⟩ first remaining host).1
      (first + remaining) := by
  have hnext : nextPrp host prps ⟨1, 0, none⟩ remaining =
      .ok (⟨2, 1, some prps.prp2⟩, hostU64 host (prps.prp2 + 8 * 0)) := by
    unfold nextPrp
    dsimp only
    rw [if_neg (by decide), if_pos (by decide), if_pos hlist]
  apply prpTransferLoop_end (Nat.ne_of_gt ((Nat.zero_le _).trans_lt hlist)) hnext
  intro n host' hpos hle
  exact prpTransferLoop_listed rfl (Nat.le_refl 2) (by omega)

theorem nextPrp_page (hpage : remaining ≤ pageSize) :
    nextPrp host prps ⟨1, 0, none⟩ remaining = .ok (⟨2, 0, none⟩, prps.prp2) := by
  unfold nextPrp
  dsimp only
  rw [if_neg (by decide), if_pos (by decide), if_neg (Nat.not_lt.mpr hpage)]

theorem prpTransferLoop_page (hne : remaining ≠ 0) (hfits : remaining + prps.prp2 % pageSize ≤ pageSize) :
    Laid first (prpTransferLoop prps buffer (fuel + 1) ⟨1, 0, none⟩ first remaining host).1
      (first + remaining) := by
  have hpage : remaining ≤ pageSize := (Nat.le_add_right _ _).trans hfits
  have hwhole : pieceSize prps.prp2 remaining = remaining := by
    unfold pieceSize
    dsimp only
    rw [Nat.min_eq_left hpage, if_neg (by omega)]
  apply prpTransferLoop_piece hne (nextPrp_page hpage)
  intro host'
  rw [hwhole, Nat.sub_self, prpTransferLoop_zero]
  exact rfl

/-- It is the address of a part of the rest, and the loop goes on with a list that there is not. -/
theorem prpTransferLoop_cut (hpage : remaining ≤ pageSize)
    (hcut : pageSize < remaining + prps.prp2 % pageSize) :
    Laid first (prpTransferLoop prps buffer (fuel + 1) ⟨1, 0, none⟩ first remaining host).1
      (first + (pageSize - prps.prp2 % pageSize)) := by
  have hlt := Nat.mod_lt prps.prp2 (show 0 < pageSize by decide)
  have hpart : pieceSize prps.prp2 remaining = pageSize - prps.prp2 % pageSize := by
    unfold pieceSize
    dsimp only
    rw [Nat.min_eq_left hpage, if_pos (by omega)]
  have hmore : remaining - (pageSize - prps.prp2 % pageSize) ≠ 0 := by omega
  apply prpTransferLoop_piece (by omega) (nextPrp_page hpage)
  intro host'
  rw [hpart]
  cases fuel with
  | zero => exact rfl
  | succ fuel =>
    rw [prpTransferLoop, if_neg hmore]
    exact rfl

/-- The pieces lie end to end, up to where the entries reach. -/
theorem prpTransferData_laid (prp1 prp2 length : Nat) (host : Nat → UInt8) :
    Laid 0 (prpTransferData prp1 prp2 buffer length host).1 (prpReach prp1 prp2 length) := by
  have hle := pieceSize_le prp1 length
  have hlt := Nat.mod_lt prp2 (show 0 < pageSize by decide)
  unfold prpTransferData prpReach
  dsimp only
  by_cases hne : length = 0
  · subst hne
    rw [prpTransferLoop_zero, if_neg (by omega)]
    exact rfl
  obtain ⟨fuel, rfl⟩ := Nat.exists_eq_succ_of_ne_zero hne
  have hpos : 0 < pieceSize prp1 (fuel + 1) := pieceSize_pos hne
  apply prpTransferLoop_piece (d := ⟨1, 0, none⟩) hne rfl
  intro host'
  rw [Nat.succ_eq_add_one, Nat.zero_add]
  generalize pieceSize prp1 (fuel + 1) = first at hle hpos ⊢
  by_cases hdone : fuel + 1 - first = 0
  · rw [hdone, prpTransferLoop_zero, if_neg (by omega)]
    change first = fuel + 1
    omega
  obtain ⟨fuel, rfl⟩ : ∃ m, fuel = m + 1 := ⟨fuel - 1, by omega⟩
  have hall : fuel + 1 + 1 = first + (fuel + 1 + 1 - first) := (Nat.add_sub_of_le hle).symm
  generalize fuel + 1 + 1 - first = remaining at hdone hall ⊢
  rw [hall]
  by_cases hcut : remaining ≤ pageSize ∧ pageSize < remaining + prp2 % pageSize
  · rw [if_pos hcut]
    exact prpTransferLoop_cut hcut.1 hcut.2
  · rw [if_neg hcut]
    rcases Nat.lt_or_ge pageSize remaining with hlist | hpage
    · exact prpTransferLoop_list hlist (by omega)
    · have hfits : remaining + prp2 % pageSize ≤ pageSize := by omega
      exact prpTransferLoop_page hdone hfits

theorem laid_inside {ps : List Piece} {hi size : Nat} (h : Laid 0 ps hi) :
    (∀ p ∈ ps, p.offset + p.size ≤ size) ↔ hi ≤ size := by
  have hcover := Tiles.cover h
  constructor
  · intro hin
    refine Nat.le_of_not_lt fun hlt => ?_
    obtain ⟨r, hr, hlo, hhi⟩ := (hcover size).mpr ⟨Nat.zero_le _, hlt⟩
    obtain ⟨p, hp, rfl⟩ := List.mem_map.mp hr
    exact absurd (hin p hp) (Nat.not_le.mpr hhi)
  · intro hle p hp
    exact (h.end_le hp).trans hle

end Transfer

section Command

variable {cmd : NvmeZoneMgmtRecv} {zp : ZnsParams} {nsecsStart size : Nat} {report host : Nat → UInt8}

theorem nrZoneToReport_lt : nrZoneToReport spp zp cmd < 2^64 := by
  unfold nrZoneToReport
  split <;> exact Nat.mod_lt _ (by decide)

theorem fillZoneReport_nrZones (cmd : NvmeZoneMgmtRecv) (report : Nat → UInt8) :
    hostU64 (fillZoneReport spp ftl cmd report) 0 = nrZoneToReport spp ftl.zp cmd := by
  have hdigits : value (fillZoneReport spp ftl cmd report) 8 0 = nrZoneToReport spp ftl.zp cmd % 256^8 := by
    apply value_digits
    intro i hi
    rw [Nat.zero_add, fillZoneReport, if_pos hi]
  exact hdigits.trans (Nat.mod_eq_of_lt nrZoneToReport_lt)

theorem fillZoneReport_descriptor {i j : Nat}
    (hbytes : descriptorBytes spp ftl.zp cmd = 64 * nrZoneToReport spp ftl.zp cmd)
    (hi : i < nrZoneToReport spp ftl.zp cmd) (hj : j < 64) :
    fillZoneReport spp ftl cmd report (64 + 64 * i + j) =
      (ftl.zoneDescs (lbaToZone spp ftl.zp cmd.slba + i)).byte j := by
  have hzone : (64 + 64 * i + j - 64) / 64 = i := by omega
  have hbyte : (64 + 64 * i + j - 64) % 64 = j := by omega
  rw [fillZoneReport, if_neg (by omega), hbytes, if_pos ⟨by omega, by omega⟩, hzone, hbyte]

theorem znsZmgmtRecvReport_passed (hcheck : checkZmgmtRcvOptionSupported spp ftl.zp cmd.toZnsCommand = true) :
    znsZmgmtRecvReport spp ftl cmd nsecsStart report host =
      ⟨⟨nvmeScSuccess, nsecsStart⟩, fillZoneReport spp ftl cmd report, descriptorBytes spp ftl.zp cmd,
        (prpTransferData cmd.prp1 cmd.prp2 (fillZoneReport spp ftl cmd report) (bytesTransfer cmd) host).1,
        (prpTransferData cmd.prp1 cmd.prp2 (fillZoneReport spp ftl cmd report) (bytesTransfer cmd)
          host).2⟩ := by
  unfold znsZmgmtRecvReport
  rw [if_pos hcheck]

theorem checked_lt (hcheck : checkZmgmtRcvOptionSupported spp zp cmd.toZnsCommand = true) :
    lbaToZone spp zp cmd.slba < zp.nrZones := by
  unfold checkZmgmtRcvOptionSupported at hcheck
  exact (of_decide_eq_true hcheck).1

theorem ZoneAt.holds_iff {d : ZoneDescriptor} {zid lba : Nat} (a : ZoneAt zp d zid) (g : Zoned spp zp) :
    (d.zslba ≤ lba ∧ lba < d.zslba + d.zoneCapacity) ↔ lba / lbasPerZone zp = zid := by
  rw [a.zslba, a.zoneCapacity]
  exact ⟨fun h => Zoned.zone_of h.1 h.2, fun h => g.in_zone h⟩

theorem LaidOut.starts_iff (p : LaidOut spp size ftl) (hsize : size < 2^64)
    (hz : lbaToZone spp ftl.zp cmd.slba < ftl.zp.nrZones) :
    ((ftl.zoneDescs (lbaToZone spp ftl.zp cmd.slba)).zslba ≤ cmd.slba ∧
      cmd.slba < (ftl.zoneDescs (lbaToZone spp ftl.zp cmd.slba)).zslba +
        (ftl.zoneDescs (lbaToZone spp ftl.zp cmd.slba)).zoneCapacity) ↔
      cmd.slba / lbasPerZone ftl.zp < 2^32 := by
  rw [(p.zoneAt hsize hz).holds_iff p.zoned]
  unfold lbaToZone u32
  rw [p.zoned.secsz]
  exact eq_comm.trans (mod_eq_self_iff (by decide))

theorem ReportFits.right (f : ReportFits spp ftl.zp cmd) (p : LaidOut spp size ftl) (hsize : size < 2^64)
    (hdw : cmd.nrDw < 2^32) (hcheck : checkZmgmtRcvOptionSupported spp ftl.zp cmd.toZnsCommand = true) :
    ReportedRight spp ftl cmd (znsZmgmtRecvReport spp ftl cmd nsecsStart report host) := by
  have hz := checked_lt hcheck
  have hzones := p.zoned.zones_lt
  have hcount : nrZoneToReport spp ftl.zp cmd =
      (if cmd.zraSpecificFeatures = false then ftl.zp.nrZones - lbaToZone spp ftl.zp cmd.slba
        else min (ftl.zp.nrZones - lbaToZone spp ftl.zp cmd.slba) (((cmd.nrDw + 1) * 4 - 64) / 64)) ∧
      nrZoneToReport spp ftl.zp cmd ≤ ftl.zp.nrZones - lbaToZone spp ftl.zp cmd.slba := by
    unfold nrZoneToReport
    split
    · unfold u64
      omega
    · rename_i hpart
      obtain ⟨hheader, hleft⟩ := f.part (Bool.eq_true_of_not_eq_false hpart)
      unfold bytesTransfer u32 at hheader hleft
      unfold bytesTransfer u64 u32
      omega
  have hbytes : descriptorBytes spp ftl.zp cmd = 64 * nrZoneToReport spp ftl.zp cmd :=
    Nat.mod_eq_of_lt (by omega)
  rw [znsZmgmtRecvReport_passed hcheck]
  refine ⟨(p.starts_iff hsize hz).mpr f.zone, ?_, ?_, ?_, ?_, ?_⟩
  · rw [fillZoneReport_nrZones]
    exact hcount.1
  · intro i hi j hj
    rw [fillZoneReport_nrZones] at hi
    exact fillZoneReport_descriptor hbytes hi hj
  · rw [hbytes]
    dsimp only
    omega
  · rw [hbytes, reportBufferSize]
    dsimp only
    omega
  · exact (laid_inside (prpTransferData_laid _ _ _ _)).mpr f.length

theorem ReportedRight.fits (p : LaidOut spp size ftl) (hsize : size < 2^64)
    (hcheck : checkZmgmtRcvOptionSupported spp ftl.zp cmd.toZnsCommand = true)
    (k : ReportedRight spp ftl cmd (znsZmgmtRecvReport spp ftl cmd nsecsStart report host)) :
    ReportFits spp ftl.zp cmd := by
  have hz := checked_lt hcheck
  have hzones := p.zoned.zones_lt
  rw [znsZmgmtRecvReport_passed hcheck] at k
  refine ⟨(p.starts_iff hsize hz).mp k.start, ?_, (laid_inside (prpTransferData_laid _ _ _ _)).mp k.sent⟩
  intro hpart
  have hcount := k.nrZones
  rw [fillZoneReport_nrZones, hpart, if_neg Bool.noConfusion, nrZoneToReport, hpart,
    if_neg Bool.noConfusion] at hcount
  have hbytes : bytesTransfer cmd < 2^34 := by
    unfold bytesTransfer u32
    omega
  unfold u64 at hcount
  omega

end Command

/-- In every state of a run a report is right, and both copies stay inside of `report_buffer`, exactly when
the command names an LBA below `2^32` zones, reads no more than the buffer has, and a partial report has room
for the header and for no more descriptors than there are zones left. -/
theorem report_right_iff {cfg : ZnsConfig} {old : ZnsParams} {size nsecsStart : Nat}
    {Allowed : ZnsFtl → ZnsCommand → Prop} {cmd : NvmeZoneMgmtRecv} {report host : Nat → UInt8}
    (h : ZnsReachable clk cfg old size spp Allowed ftl) (hsize : size < 2^64) (hdw : cmd.nrDw < 2^32)
    (hcheck : checkZmgmtRcvOptionSupported spp ftl.zp cmd.toZnsCommand = true) :
    ReportedRight spp ftl cmd (znsZmgmtRecvReport spp ftl cmd nsecsStart report host) ↔
      ReportFits spp ftl.zp cmd :=
  ⟨fun k => k.fits h.laidOut hsize hcheck, fun f => f.right h.laidOut hsize hdw hcheck⟩

/-- A partial report of both zones of 4 GiB. -/
def receiveBoth : NvmeZoneMgmtRecv := ⟨4096, 8192, 0, 47, 0, 0, true⟩

/-- The same with a buffer of one page. -/
def receivePage (part : Bool) : NvmeZoneMgmtRecv := ⟨4096, 8192, 0, 1023, 0, 0, part⟩

/-- One dword. -/
def receiveDword : NvmeZoneMgmtRecv := ⟨4096, 8192, 0, 0, 0, 0, true⟩

theorem report_right_both : ∃ spp ftl,
    ZnsReachable (fun _ => 0) wdZn540 zeroedParams (2^32) spp (fun _ _ => True) ftl ∧
    ftl.zp.nrZones = 2 ∧ ∀ report host,
      ReportedRight spp ftl receiveBoth (znsZmgmtRecvReport spp ftl receiveBoth 0 report host) := by
  obtain ⟨spp, ftl, hinit, hzones, hcheck, hfits⟩ : ∃ spp ftl,
      znsInitNamespace wdZn540 zeroedParams (2^32) = .ok (spp, ftl) ∧ ftl.zp.nrZones = 2 ∧
        checkZmgmtRcvOptionSupported spp ftl.zp receiveBoth.toZnsCommand = true ∧
        ReportFits spp ftl.zp receiveBoth :=
    ⟨_, _, rfl, rfl, rfl, by decide, by decide, by decide⟩
  have hr : ZnsReachable (fun _ => 0) wdZn540 zeroedParams (2^32) spp (fun _ _ => True) ftl := .init hinit
  exact ⟨spp, ftl, hr, hzones, fun report host => (report_right_iff hr (by decide) (by decide) hcheck).mpr
    hfits⟩

/-- With two zones. A partial report into a page counts 63 zones, one into a dword `2^64 - 1`, and a whole
report into a page sends what is behind `report_buffer` too. -/
theorem report_wrong_page : ∃ spp ftl,
    ZnsReachable (fun _ => 0) wdZn540 zeroedParams (2^32) spp (fun _ _ => True) ftl ∧
    ftl.zp.nrZones = 2 ∧ reportBufferSize ftl.zp = 256 ∧ ∀ report host,
      (hostU64 (znsZmgmtRecvReport spp ftl (receivePage true) 0 report host).report 0 = 63 ∧
        ¬ ReportedRight spp ftl (receivePage true)
          (znsZmgmtRecvReport spp ftl (receivePage true) 0 report host)) ∧
      (hostU64 (znsZmgmtRecvReport spp ftl receiveDword 0 report host).report 0 = 2^64 - 1 ∧
        ¬ ReportedRight spp ftl receiveDword (znsZmgmtRecvReport spp ftl receiveDword 0 report host)) ∧
      ((∃ p ∈ (znsZmgmtRecvReport spp ftl (receivePage false) 0 report host).sent, 256 < p.offset + p.size) ∧
        ¬ ReportedRight spp ftl (receivePage false)
          (znsZmgmtRecvReport spp ftl (receivePage false) 0 report host)) := by
  obtain ⟨spp, ftl, hinit, hzones, hsize, hpage, hdword, hwhole, hcount, hcount'⟩ : ∃ spp ftl,
      znsInitNamespace wdZn540 zeroedParams (2^32) = .ok (spp, ftl) ∧ ftl.zp.nrZones = 2 ∧
        reportBufferSize ftl.zp = 256 ∧
        checkZmgmtRcvOptionSupported spp ftl.zp (receivePage true).toZnsCommand = true ∧
        checkZmgmtRcvOptionSupported spp ftl.zp receiveDword.toZnsCommand = true ∧
        checkZmgmtRcvOptionSupported spp ftl.zp (receivePage false).toZnsCommand = true ∧
        nrZoneToReport spp ftl.zp (receivePage true) = 63 ∧
        nrZoneToReport spp ftl.zp receiveDword = 2^64 - 1 :=
    ⟨_, _, rfl, rfl, rfl, by decide, by decide, by decide, by decide, by decide +kernel⟩
  have hr : ZnsReachable (fun _ => 0) wdZn540 zeroedParams (2^32) spp (fun _ _ => True) ftl := .init hinit
  refine ⟨spp, ftl, hr, hzones,
    hsize, fun report host => ⟨⟨?_, fun k => ?_⟩, ⟨?_, fun k => ?_⟩, ?_, fun k => ?_⟩⟩
  · rw [znsZmgmtRecvReport_passed hpage, fillZoneReport_nrZones, hcount]
  · have hleft := ((k.fits hr.laidOut (by decide) hpage).part rfl).2
    rw [hzones] at hleft
    have hbytes : bytesTransfer (receivePage true) = 4096 := by decide
    omega
  · rw [znsZmgmtRecvReport_passed hdword, fillZoneReport_nrZones, hcount']
  · exact absurd ((k.fits hr.laidOut (by decide) hdword).part rfl).1 (by decide)
  · rw [znsZmgmtRecvReport_passed hwhole]
    have hreach : ¬ prpReach (receivePage false).prp1 (receivePage false).prp2
        (bytesTransfer (receivePage false)) ≤ 256 := by decide
    rw [← laid_inside (prpTransferData_laid _ _ _ host)] at hreach
    simpa only [not_forall, Nat.not_le, exists_prop] using hreach
  · have hreach := (k.fits hr.laidOut (by decide) hwhole).length
    rw [hsize] at hreach
    exact absurd hreach (by decide)

end NVMeVirt
