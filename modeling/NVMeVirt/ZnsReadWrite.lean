import NVMeVirt.ZnsFtl

/-!
# Reads and writes of a zoned namespace

`zns_read_write.c` and the command entry of `zns_ftl.c`. A handler yields, beside the new
state, the submission entry (a zone append rewrites its `slba`) and its calls of
`schedule_internal_operation`.
-/

namespace NVMeVirt
set_option autoImplicit false
open Outcome

inductive ZnsOpcode where
  | write
  | zoneAppend
  | read
  | flush
  | zoneMgmtSend
  | zoneMgmtRecv
  | other
  deriving Repr, DecidableEq

/-- The fields of the command union that the zoned handlers read. -/
structure ZnsCommand where
  opcode : ZnsOpcode
  slba : Nat
  length : Nat
  fua : Bool
  zsa : ZoneSendAction
  selectAll : Bool
  zsaso : Nat
  zra : Nat
  zraSpecificField : Nat
  deriving Repr, DecidableEq

structure ZnsRequest where
  cmd : ZnsCommand
  sqId : Nat
  nsecsStart : Nat
  deriving Repr, DecidableEq

/-- Which write buffer an internal operation gives space back to. -/
inductive BufferRef where
  | shared
  | zone (zid : Nat)
  | zrwa (zid : Nat)
  deriving Repr, DecidableEq

structure ZnsRelease where
  sqid : Nat
  nsecsTarget : Nat
  buffer : BufferRef
  buffsToRelease : Nat
  deriving Repr, DecidableEq

structure ZnsOutcome where
  accepted : Bool
  ftl : ZnsFtl
  cmd : ZnsCommand
  ret : NvmevResult
  calls : List ZnsRelease

namespace ZnsFtl

def buffer (ftl : ZnsFtl) : BufferRef → Buffer
  | .shared => ftl.writeBuffer
  | .zone zid => ftl.zoneWriteBuffer zid
  | .zrwa zid => ftl.zwraBuffer zid

def setBuffer (ftl : ZnsFtl) (ref : BufferRef) (buf : Buffer) : ZnsFtl :=
  match ref with
  | .shared => { ftl with writeBuffer := buf }
  | .zone zid => { ftl with zoneWriteBuffer := Function.update ftl.zoneWriteBuffer zid buf }
  | .zrwa zid => { ftl with zwraBuffer := Function.update ftl.zwraBuffer zid buf }

end ZnsFtl

variable (clk : Nat → Nat) (spp : SsdParams)

def nrLbasFromRwCmd (cmd : ZnsCommand) : Nat := cmd.length + 1

def checkBoundaryError (zp : ZnsParams) (slba nrLba : Nat) : Bool :=
  lbaToZone spp zp slba = lbaToZone spp zp (u64 (slba + nrLba + (2^64 - 1)))

def increaseWritePtr (ftl : ZnsFtl) (zid nrLba : Nat) : ZnsFtl :=
  let d := ftl.zoneDescs zid
  let curWritePtr := u64 (d.wp + u32 nrLba)
  let ftl := ftl.setDesc zid { d with wp := curWritePtr }
  if curWritePtr = u64 (zoneToSlba spp ftl.zp zid + d.zoneCapacity) then
    let ftl := (ftl.releaseZoneResource .openZone).releaseZoneResource .activeZone
    ftl.changeZoneState zid .full
  else ftl

def lpnToPpa (zp : ZnsParams) (lpn : Nat) : Ppa :=
  let zone := lpnToZone spp zp lpn
  let off := u64 (lpn + (2^64 - zoneToSlpn spp zp zone))
  let sdie := u32 (u64 (zone * zp.diesPerZone) % spp.ttLuns)
  let die := u32 (sdie + off / spp.pgsPerOneshotpg % zp.diesPerZone)
  { pg := off % spp.pgsPerOneshotpg % 2^pageBits
    blk := 0
    pl := 0
    lun := dieToLun spp die % 2^lunBits
    ch := dieToChannel spp die % 2^chBits
    rsv := 0 }

/-- The states that a write finds its zone in; `case ZONE_STATE_CLOSED` is entered from above. -/
def openClosedForWrite (ftl : ZnsFtl) (zid : Nat) : ZnsFtl × Nat :=
  match ftl.acquireZoneResource .openZone with
  | (ftl, false) => (ftl, nvmeScZnsNoOpenZone)
  | (ftl, true) => (ftl.changeZoneState zid .openedImpl, nvmeScSuccess)

def openForWrite (ftl : ZnsFtl) (zid slba : Nat) : ZnsFtl × Nat :=
  match (ftl.zoneDescs zid).state with
  | .empty =>
    if slba ≠ (ftl.zoneDescs zid).zslba then (ftl, nvmeScZnsInvalidWrite)
    else if ftl.isZoneResourceFull .activeZone then (ftl, nvmeScZnsNoActiveZone)
    else if ftl.isZoneResourceFull .openZone then (ftl, nvmeScZnsNoOpenZone)
    else openClosedForWrite (ftl.acquireZoneResource .activeZone).1 zid
  | .closed => openClosedForWrite ftl zid
  | .openedImpl | .openedExpl => (ftl, nvmeScSuccess)
  | .full => (ftl, nvmeScZnsErrFull)
  | .readOnly => (ftl, nvmeScZnsErrReadOnly)
  | .offline => (ftl, nvmeScZnsErrOffline)

def admitWrite (ftl : ZnsFtl) (zid slba nrLba : Nat) : ZnsFtl × Nat :=
  if lbaToByte nrLba % spp.writeUnitSize ≠ 0 then (ftl, nvmeScZnsInvalidWrite)
  else if checkBoundaryError spp ftl.zp slba nrLba = false then (ftl, nvmeScZnsErrBoundary)
  else if slba ≠ (ftl.zoneDescs zid).wp then (ftl, nvmeScZnsInvalidWrite)
  else openForWrite ftl zid slba

/-- The timing state of a write, the latest completion and the releases scheduled so far. -/
structure ProgramState where
  ssd : Ssd
  nsecsLatest : Nat
  calls : List ZnsRelease

/-- One NAND program of a one-shot page and the release that goes with it. -/
def programOneshot (ppa : Ppa) (stime sqId : Nat) (ref : BufferRef) (bytes : Nat)
    (p : ProgramState) : Except Fault ProgramState := do
  let (ssd, nsecsCompleted) ← ssdAdvanceNand clk spp p.ssd
    { type := .user, cmd := .write, xferSize := spp.pgsPerOneshotpg * spp.pgsz, stime := stime,
      interleavePciDma := false, ppa := ppa }
  return { ssd := ssd, nsecsLatest := max nsecsCompleted p.nsecsLatest,
           calls := p.calls ++ [⟨sqId, nsecsCompleted, ref, bytes⟩] }

/-- Bytes given back when the piece that ends at page `last` has been programmed. -/
def bufsToRelease (zp : ZnsParams) (zoneElpn last : Nat) : Nat :=
  let unalignedSpace := zp.zoneSize % (spp.pgsPerOneshotpg * spp.pgsz)
  if last = zoneElpn ∧ 0 < unalignedSpace then unalignedSpace else spp.pgsPerOneshotpg * spp.pgsz

/-- The page loop of `__zns_write`, from `lpn` to `elpn`, in pieces within one one-shot page. -/
def writePages (zp : ZnsParams) (zoneElpn elpn stime sqId : Nat) (ref : BufferRef) :
    Nat → Nat → ProgramState → Except Fault ProgramState
  | 0, lpn, p => if elpn < lpn then .ok p else .error .outOfFuel
  | fuel + 1, lpn, p =>
    if elpn < lpn then .ok p
    else do
      let ppa := lpnToPpa spp zp lpn
      let pgOff := ppa.pg % spp.pgsPerOneshotpg
      let pgs := min (elpn - lpn + 1) (spp.pgsPerOneshotpg - pgOff)
      let p ← if pgOff + pgs = spp.pgsPerOneshotpg ∨ lpn + pgs - 1 = zoneElpn then
          programOneshot clk spp ppa stime sqId ref (bufsToRelease spp zp zoneElpn (lpn + pgs - 1)) p
        else pure p
      writePages zp zoneElpn elpn stime sqId ref fuel (lpn + pgs) p

def writeBufferOf (ftl : ZnsFtl) (zid : Nat) : BufferRef :=
  if ftl.zp.zoneWbSize ≠ 0 then .zone zid else .shared

def targetOf (cmd : ZnsCommand) (nsecsLatest nsecsXferCompleted : Nat) : Nat :=
  if cmd.fua || !spp.writeEarlyCompletion then nsecsLatest else nsecsXferCompleted

/-- `__zns_write`. The submission entry of an append has the write pointer as `slba` from the
start, also when the command is refused. -/
def znsWritePlain (ftl : ZnsFtl) (req : ZnsRequest) (ret : NvmevResult) : Except Fault ZnsOutcome := do
  let nrLba := nrLbasFromRwCmd req.cmd
  let zid := lbaToZone spp ftl.zp req.cmd.slba
  if ftl.zp.nrZones ≤ zid then .error .badAddress
  let slba := if req.cmd.opcode = .zoneAppend then (ftl.zoneDescs zid).wp else req.cmd.slba
  let cmd := { req.cmd with slba := slba }
  let slpn := lbaToLpn spp slba
  let elpn := lbaToLpn spp (u64 (slba + nrLba + (2^64 - 1)))
  let zoneElpn := zoneToElpn spp ftl.zp zid
  let ref := writeBufferOf ftl zid
  let (buf, allocated) := bufferAllocate (ftl.buffer ref) (lbaToByte nrLba)
  if allocated < lbaToByte nrLba then return ⟨false, ftl, cmd, ret, []⟩
  let ftl := ftl.setBuffer ref buf
  let (ftl, status) := admitWrite spp ftl zid slba nrLba
  if status ≠ nvmeScSuccess then
    return ⟨true, ftl, cmd, ⟨status, req.nsecsStart⟩, []⟩
  let ftl := increaseWritePtr spp ftl zid nrLba
  let (ssd, nsecsXferCompleted) ← ssdAdvanceWriteBuffer clk spp ftl.ssd req.nsecsStart (lbaToByte nrLba)
  let p ← writePages clk spp ftl.zp zoneElpn elpn nsecsXferCompleted req.sqId ref (elpn + 1 - slpn) slpn
    ⟨ssd, nsecsXferCompleted, []⟩
  return ⟨true, { ftl with ssd := p.ssd }, cmd,
    ⟨nvmeScSuccess, targetOf spp cmd p.nsecsLatest nsecsXferCompleted⟩, p.calls⟩

/-- The LBAs that a write up to `elba` flushes out of the random write area. -/
def nrLbasFlush (ftl : ZnsFtl) (zid elba : Nat) : Except Fault Nat :=
  let prevWp := (ftl.zoneDescs zid).wp
  let zrwaImplStart := u64 (prevWp + ftl.zp.lbasPerZrwa)
  if zrwaImplStart ≤ elba then do
    let granularity ← divisor ftl.zp.lbasPerZrwafg
    return u64 (divRoundUp (elba - zrwaImplStart + 1) granularity * granularity)
  else if elba = zoneToElba spp ftl.zp zid then .ok (u64 (elba + (2^64 - prevWp) + 1))
  else .ok 0

/-- `case ZONE_STATE_CLOSED` and `ZONE_STATE_EMPTY`: the zone's area is taken from its buffer. -/
def openForZrwaWrite (ftl : ZnsFtl) (zid : Nat) : Except Fault (ZnsFtl × Nat) :=
  match (ftl.zoneDescs zid).state with
  | .closed | .empty =>
    match ftl.acquireZoneResource .openZone with
    | (ftl, false) => .ok (ftl, nvmeScZnsNoOpenZone)
    | (ftl, true) => do
      if ftl.zp.zrwaBufferSize = 0 then .error .badAddress
      let (buf, allocated) := bufferAllocate (ftl.zwraBuffer zid) ftl.zp.zrwaSize
      nvmevAssert (u32 allocated ≠ 0)
      let ftl := ftl.setBuffer (.zrwa zid) buf
      return (ftl.changeZoneState zid .openedImpl, nvmeScSuccess)
  | .openedImpl | .openedExpl => .ok (ftl, nvmeScSuccess)
  | .full => .ok (ftl, nvmeScZnsErrFull)
  | .readOnly => .ok (ftl, nvmeScZnsErrReadOnly)
  | .offline => .ok (ftl, nvmeScZnsErrOffline)

def admitZrwaWrite (ftl : ZnsFtl) (zid slba nrLba : Nat) : Except Fault (ZnsFtl × Nat) :=
  let elba := u64 (slba + nrLba + (2^64 - 1))
  let zrwaImplEnd := u64 ((ftl.zoneDescs zid).wp + u32 (2 * ftl.zp.lbasPerZrwa) + (2^64 - 1))
  if lbaToByte nrLba % spp.writeUnitSize ≠ 0 then .ok (ftl, nvmeScZnsInvalidWrite)
  else if checkBoundaryError spp ftl.zp slba nrLba = false then .ok (ftl, nvmeScZnsErrBoundary)
  else if slba < (ftl.zoneDescs zid).wp ∨ zrwaImplEnd < elba then .ok (ftl, nvmeScZnsInvalidWrite)
  else openForZrwaWrite ftl zid

/-- The `while (remaining > 0)` of `__zns_write_zrwa`. -/
def flushPages (zp : ZnsParams) (stime sqId zid : Nat) :
    Nat → Nat → Nat → ProgramState → Except Fault ProgramState
  | 0, _, remaining, p => if remaining = 0 then .ok p else .error .outOfFuel
  | fuel + 1, lpn, remaining, p =>
    if remaining = 0 then .ok p
    else do
      let ppa := lpnToPpa spp zp lpn
      let pgOff := ppa.pg % spp.pgsPerOneshotpg
      let pgs := min remaining (spp.pgsPerOneshotpg - pgOff)
      let p ← if pgOff + pgs = spp.pgsPerOneshotpg then
          programOneshot clk spp ppa stime sqId (.zrwa zid) (spp.pgsPerOneshotpg * spp.pgsz) p
        else pure p
      flushPages zp stime sqId zid fuel (u64 (lpn + pgs)) (remaining - pgs) p

/-- The write pointer moves when something is flushed; `none` is the C `return false`. -/
def flushZrwa (ftl : ZnsFtl) (zid flush : Nat) : Except Fault (Option ZnsFtl) :=
  if flush = 0 then .ok (some ftl)
  else if ftl.zp.zrwaBufferSize = 0 then .error .badAddress
  else
    let (buf, allocated) := bufferAllocate (ftl.zwraBuffer zid) (u64 (lbaToByte flush))
    let ftl := ftl.setBuffer (.zrwa zid) buf
    if u32 allocated = 0 then .ok none else .ok (some (increaseWritePtr spp ftl zid flush))

/-- What `flushZrwa` leaves behind when it refuses. -/
def refusedZrwa (ftl : ZnsFtl) (zid flush : Nat) : ZnsFtl :=
  ftl.setBuffer (.zrwa zid) (bufferAllocate (ftl.zwraBuffer zid) (u64 (lbaToByte flush))).1

def znsWriteZrwa (ftl : ZnsFtl) (req : ZnsRequest) (ret : NvmevResult) : Except Fault ZnsOutcome := do
  let slba := req.cmd.slba
  let nrLba := nrLbasFromRwCmd req.cmd
  let elba := u64 (slba + nrLba + (2^64 - 1))
  let zid := lbaToZone spp ftl.zp slba
  if ftl.zp.nrZones ≤ zid then .error .badAddress
  let prevWp := (ftl.zoneDescs zid).wp
  let (ftl, status) ← admitZrwaWrite spp ftl zid slba nrLba
  if status ≠ nvmeScSuccess then
    return ⟨true, ftl, req.cmd, ⟨status, req.nsecsStart⟩, []⟩
  let flush ← nrLbasFlush spp ftl zid elba
  match ← flushZrwa spp ftl zid flush with
  | none => return ⟨false, refusedZrwa ftl zid flush, req.cmd, ret, []⟩
  | some ftl =>
    let (ssd, nsecsXferCompleted) ← ssdAdvanceWriteBuffer clk spp ftl.ssd req.nsecsStart (lbaToByte nrLba)
    let remaining := flush / spp.secsPerPg
    let p ← flushPages clk spp ftl.zp nsecsXferCompleted req.sqId zid remaining (lbaToLpn spp prevWp)
      remaining ⟨ssd, nsecsXferCompleted, []⟩
    return ⟨true, { ftl with ssd := p.ssd }, req.cmd,
      ⟨nvmeScSuccess, targetOf spp req.cmd p.nsecsLatest nsecsXferCompleted⟩, p.calls⟩

def znsWrite (ftl : ZnsFtl) (req : ZnsRequest) (ret : NvmevResult) : Except Fault ZnsOutcome :=
  let zid := lpnToZone spp ftl.zp (lbaToLpn spp req.cmd.slba)
  if ftl.zp.nrZones ≤ zid then .error .badAddress
  else if (ftl.zoneDescs zid).zrwav = false then znsWritePlain clk spp ftl req ret
  else znsWriteZrwa clk spp ftl req ret

/-- The page loop of `zns_read`, in pieces within one flash page. -/
def readPages (zp : ZnsParams) (elpn stime : Nat) : Nat → Nat → Ssd × Nat → Except Fault (Ssd × Nat)
  | 0, lpn, p => if elpn < lpn then .ok p else .error .outOfFuel
  | fuel + 1, lpn, (ssd, nsecsLatest) =>
    if elpn < lpn then .ok (ssd, nsecsLatest)
    else do
      let ppa := lpnToPpa spp zp lpn
      let pgOff := ppa.pg % spp.pgsPerFlashpg
      let pgs := min (elpn - lpn + 1) (spp.pgsPerFlashpg - pgOff)
      let (ssd, nsecsCompleted) ← ssdAdvanceNand clk spp ssd
        { type := .user, cmd := .read, xferSize := pgs * spp.pgsz, stime := stime,
          interleavePciDma := false, ppa := ppa }
      readPages zp elpn stime fuel (lpn + pgs) (ssd, max nsecsCompleted nsecsLatest)

def znsRead (ftl : ZnsFtl) (req : ZnsRequest) : Except Fault ZnsOutcome := do
  let slba := req.cmd.slba
  let nrLba := nrLbasFromRwCmd req.cmd
  let slpn := lbaToLpn spp slba
  let elpn := lbaToLpn spp (u64 (slba + nrLba + (2^64 - 1)))
  let zid := lpnToZone spp ftl.zp slpn
  if ftl.zp.nrZones ≤ zid then .error .badAddress
  let status :=
    if (ftl.zoneDescs zid).state = .offline then nvmeScZnsErrOffline
    else if checkBoundaryError spp ftl.zp slba nrLba = false then nvmeScZnsErrBoundary
    else nvmeScSuccess
  let lat := if lbaToByte nrLba ≤ kb 4 then spp.fw4kbRdLat else spp.fwRdLat
  let stime := u64 (req.nsecsStart + lat)
  let (ssd, nsecsLatest) ← readPages clk spp ftl.zp elpn stime (elpn + 1 - slpn) slpn (ftl.ssd, stime)
  let (ssd, nsecsCompleted) ← ssdAdvancePcie clk ssd nsecsLatest (nrLba * spp.secsz)
  return ⟨true, { ftl with ssd := ssd }, req.cmd, ⟨status, max nsecsCompleted nsecsLatest⟩, []⟩

def znsFlush (ftl : ZnsFtl) : ZnsFtl × NvmevResult :=
  let start := clk ftl.ssd.ticks
  let (ssd, idle) := ssdNextIdleTime clk spp { ftl.ssd with ticks := ftl.ssd.ticks + 1 }
  ({ ftl with ssd := ssd }, ⟨nvmeScSuccess, max start idle⟩)

def checkZmgmtRcvOptionSupported (zp : ZnsParams) (cmd : ZnsCommand) : Bool :=
  lbaToZone spp zp cmd.slba < zp.nrZones ∧ cmd.zra = 0 ∧ cmd.zraSpecificField = 0

/-- The report itself goes to the host; the zones stay as they are. -/
def znsZmgmtRecv (ftl : ZnsFtl) (req : ZnsRequest) : NvmevResult :=
  ⟨if checkZmgmtRcvOptionSupported spp ftl.zp req.cmd then nvmeScSuccess else nvmeScInvalidField,
    req.nsecsStart⟩

def znsProcNvmeIoCmd (garbage : Nat) (ftl : ZnsFtl) (req : ZnsRequest) (ret : NvmevResult) :
    Except Fault ZnsOutcome :=
  match req.cmd.opcode with
  | .write | .zoneAppend => znsWrite clk spp ftl req ret
  | .read => znsRead clk spp ftl req
  | .flush =>
    let (ftl, ret) := znsFlush clk spp ftl
    .ok ⟨true, ftl, req.cmd, ret, []⟩
  | .zoneMgmtSend => do
    let (ftl, status) ← znsZmgmtSend spp garbage ftl req.cmd.selectAll req.cmd.slba req.cmd.zsa req.cmd.zsaso
    return ⟨true, ftl, req.cmd, ⟨status, req.nsecsStart⟩, []⟩
  | .zoneMgmtRecv => .ok ⟨true, ftl, req.cmd, znsZmgmtRecv spp ftl req, []⟩
  | .other => .ok ⟨true, ftl, req.cmd, ret, []⟩

end NVMeVirt
