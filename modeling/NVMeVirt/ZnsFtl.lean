import NVMeVirt.ConvNamespace

/-!
# A zoned namespace: zones, resources and zone management

`zns_ftl.h`, `zns_ftl.c` and `zns_mgmt_send.c`. Zone indices are `uint32_t`: the helpers
truncate as the C types do. `res_infos` is a function of the resource type. The buffers of
the zones exist when their configured size is not zero.
-/

namespace NVMeVirt
set_option autoImplicit false
open Outcome

inductive ZoneState where
  | empty
  | openedImpl
  | openedExpl
  | closed
  | readOnly
  | full
  | offline
  deriving Repr, DecidableEq

inductive ResType where
  | activeZone
  | openZone
  | zrwaZone
  deriving Repr, DecidableEq

def nvmeScInvalidField : Nat := 2
def nvmeScZnsInvalidZoneOperation : Nat := 0x1b6
def nvmeScZnsZrwaRsrcUnavail : Nat := 0x1b7
def nvmeScZnsErrBoundary : Nat := 0x1b8
def nvmeScZnsErrFull : Nat := 0x1b9
def nvmeScZnsErrReadOnly : Nat := 0x1ba
def nvmeScZnsErrOffline : Nat := 0x1bb
def nvmeScZnsInvalidWrite : Nat := 0x1bc
def nvmeScZnsNoActiveZone : Nat := 0x1bd
def nvmeScZnsNoOpenZone : Nat := 0x1be
def nvmeScZnsInvalidTransition : Nat := 0x1bf

/-- The macros of a zoned build beyond those of every SSD. -/
structure ZnsConfig extends SsdConfig where
  zoneSize : Nat
  diesPerZone : Nat
  zoneWbSize : Nat
  maxZrwaZones : Nat
  zrwafgSize : Nat
  zrwaSize : Nat
  zrwaBufferSize : Nat
  deriving Repr, DecidableEq

def wdZn540 : ZnsConfig where
  mdts := 6
  cellMode := 3
  ssdPartitions := 1
  nandChannels := 8
  lunsPerNandCh := 4
  plnsPerLun := 1
  flashPageSize := kb 32
  oneshotPageSize := kb 32 * 3
  blksPerPln := 0
  blkSize := 2 * 2^30 / (8 * 4)
  maxChXferSize := kb 32
  writeUnitSize := 512
  nandChannelBandwidth := 450
  pcieBandwidth := 3050
  nand4kbReadLatency := ⟨50000, 50000, 50000⟩
  nandReadLatency := ⟨58000, 58000, 58000⟩
  nandProgLatency := 561000
  nandEraseLatency := 0
  fw4kbReadLatency := 20000
  fwReadLatency := 13000
  fwWbufLatency0 := 5600
  fwWbufLatency1 := 600
  fwChXferLatency := 0
  opAreaHundredths := 0
  globalWbSize := 0
  writeEarlyCompletion := true
  zoneSize := 2 * 2^30
  diesPerZone := 8 * 4
  zoneWbSize := 10 * (kb 32 * 3)
  maxZrwaZones := 0
  zrwafgSize := 0
  zrwaSize := 0
  zrwaBufferSize := 0

def znsPrototype : ZnsConfig where
  mdts := 6
  cellMode := 3
  ssdPartitions := 1
  nandChannels := 8
  lunsPerNandCh := 16
  plnsPerLun := 1
  flashPageSize := kb 64
  oneshotPageSize := kb 64 * 2
  blksPerPln := 0
  blkSize := 32 * 2^20 / 1
  maxChXferSize := kb 64
  writeUnitSize := kb 64 * 2
  nandChannelBandwidth := 800
  pcieBandwidth := 3200
  nand4kbReadLatency := ⟨25485, 25485, 25485⟩
  nandReadLatency := ⟨40950, 40950, 40950⟩
  nandProgLatency := 1913640
  nandEraseLatency := 0
  fw4kbReadLatency := 37540 - 7390 + 2000
  fwReadLatency := 37540 - 7390 + 2000
  fwWbufLatency0 := 0
  fwWbufLatency1 := 0
  fwChXferLatency := 413
  opAreaHundredths := 0
  globalWbSize := 8 * 16 * (kb 64 * 2) * 2
  writeEarlyCompletion := false
  zoneSize := 32 * 2^20
  diesPerZone := 1
  zoneWbSize := 0
  maxZrwaZones := 0
  zrwafgSize := 0
  zrwaSize := 0
  zrwaBufferSize := 0

/-- The builds of `ssd_config.h` with a zoned namespace. -/
def znsConfigs : List ZnsConfig := [znsPrototype, wdZn540]

structure ZnsParams where
  nrZones : Nat
  nrActiveZones : Nat
  nrOpenZones : Nat
  diesPerZone : Nat
  zoneSize : Nat
  zoneWbSize : Nat
  nrZrwaZones : Nat
  zrwafgSize : Nat
  zrwaSize : Nat
  zrwaBufferSize : Nat
  lbasPerZrwafg : Nat
  lbasPerZrwa : Nat
  deriving Repr, DecidableEq

/-- A stack frame that happened to hold zeros. -/
def zeroedParams : ZnsParams := ⟨0, 0, 0, 0, 0, 0, 0, 0, 0, 0, 0, 0⟩

structure ZoneDescriptor where
  state : ZoneState
  zrwav : Bool
  zoneCapacity : Nat
  zslba : Nat
  wp : Nat
  deriving Repr, DecidableEq

structure ZoneResource where
  acquiredCnt : Nat
  totalCnt : Nat
  deriving Repr, DecidableEq

structure ZnsFtl where
  ssd : Ssd
  zp : ZnsParams
  resInfos : ResType → ZoneResource
  zoneDescs : Nat → ZoneDescriptor
  writeBuffer : Buffer
  zoneWriteBuffer : Nat → Buffer
  zwraBuffer : Nat → Buffer

/-- The designated initialiser is evaluated on what the object held before: `old`. -/
def znsInitParams (cfg : ZnsConfig) (spp : SsdParams) (old : ZnsParams) (capacity : Nat) :
    Except Fault ZnsParams := do
  let zoneSize ← divisor cfg.zoneSize
  let zpp : ZnsParams :=
    { zoneSize := u32 zoneSize
      nrZones := u32 (capacity / zoneSize)
      diesPerZone := u32 cfg.diesPerZone
      nrActiveZones := old.nrZones
      nrOpenZones := old.nrZones
      nrZrwaZones := u32 cfg.maxZrwaZones
      zoneWbSize := u32 cfg.zoneWbSize
      zrwaSize := u32 cfg.zrwaSize
      zrwafgSize := u32 cfg.zrwafgSize
      zrwaBufferSize := u32 cfg.zrwaBufferSize
      lbasPerZrwa := old.zrwaSize / spp.secsz
      lbasPerZrwafg := old.zrwafgSize / spp.secsz }
  let size ← divisor zpp.zoneSize
  nvmevAssert (capacity % size = 0)
  nvmevAssert (zpp.zoneSize % spp.pgsz = 0)
  return zpp

/-- `zslba` is added up in 64 bits. -/
def initDescriptor (zp : ZnsParams) (i : Nat) : ZoneDescriptor where
  state := .empty
  zrwav := false
  zoneCapacity := zp.zoneSize / lbaSize
  zslba := u64 (i * (zp.zoneSize / lbaSize))
  wp := u64 (i * (zp.zoneSize / lbaSize))

def znsInitFtl (spp : SsdParams) (zp : ZnsParams) : ZnsFtl where
  ssd := ssdInit spp
  zp := zp
  resInfos := fun _ => ⟨0, zp.nrZones⟩
  zoneDescs := initDescriptor zp
  writeBuffer := bufferInit spp.writeBufferSize
  zoneWriteBuffer := fun _ => bufferInit zp.zoneWbSize
  zwraBuffer := fun _ => bufferInit zp.zrwaBufferSize

def znsInitNamespace (cfg : ZnsConfig) (old : ZnsParams) (size : Nat) :
    Except Fault (SsdParams × ZnsFtl) := do
  let spp ← ssdInitParams cfg.toSsdConfig size 1
  let zp ← znsInitParams cfg spp old size
  return (spp, znsInitFtl spp zp)

variable (spp : SsdParams)

def lpnToZone (zp : ZnsParams) (lpn : Nat) : Nat := u32 (lpn / (zp.zoneSize / spp.pgsz))
def zoneToSlpn (zp : ZnsParams) (zid : Nat) : Nat := u32 (zid * (zp.zoneSize / spp.pgsz))
def lbaToZone (zp : ZnsParams) (lba : Nat) : Nat := u32 (lba / (zp.zoneSize / spp.secsz))
def zoneToSlba (zp : ZnsParams) (zid : Nat) : Nat := u32 (zid * (zp.zoneSize / spp.secsz))
def zoneToElba (zp : ZnsParams) (zid : Nat) : Nat :=
  u64 (zoneToSlba spp zp (u32 (zid + 1)) + (2^64 - 1))
def zoneToElpn (zp : ZnsParams) (zid : Nat) : Nat := zoneToElba spp zp zid / spp.secsPerPg
def dieToChannel (die : Nat) : Nat := die % spp.nchs
def dieToLun (die : Nat) : Nat := die / spp.nchs
def lbaToLpn (lba : Nat) : Nat := lba / spp.secsPerPg

namespace ZnsFtl

def isZoneResourceAvail (ftl : ZnsFtl) (type : ResType) : Bool :=
  (ftl.resInfos type).acquiredCnt < (ftl.resInfos type).totalCnt

def isZoneResourceFull (ftl : ZnsFtl) (type : ResType) : Bool :=
  (ftl.resInfos type).acquiredCnt = (ftl.resInfos type).totalCnt

def setCnt (ftl : ZnsFtl) (type : ResType) (n : Nat) : ZnsFtl :=
  { ftl with resInfos := Function.update ftl.resInfos type { ftl.resInfos type with acquiredCnt := n } }

def acquireZoneResource (ftl : ZnsFtl) (type : ResType) : ZnsFtl × Bool :=
  if ftl.isZoneResourceAvail type then (ftl.setCnt type ((ftl.resInfos type).acquiredCnt + 1), true)
  else (ftl, false)

/-- The `ASSERT` in the source expands to nothing; the counter is 32 bits wide. -/
def releaseZoneResource (ftl : ZnsFtl) (type : ResType) : ZnsFtl :=
  ftl.setCnt type (u32 ((ftl.resInfos type).acquiredCnt + (2^32 - 1)))

def setDesc (ftl : ZnsFtl) (zid : Nat) (d : ZoneDescriptor) : ZnsFtl :=
  { ftl with zoneDescs := Function.update ftl.zoneDescs zid d }

def changeZoneState (ftl : ZnsFtl) (zid : Nat) (state : ZoneState) : ZnsFtl :=
  ftl.setDesc zid { ftl.zoneDescs zid with state := state }

end ZnsFtl

-- An action of zone management send returns the state and the status.

def zmgmtSendCloseZone (ftl : ZnsFtl) (zid : Nat) : ZnsFtl × Nat :=
  match (ftl.zoneDescs zid).state with
  | .openedImpl | .openedExpl =>
    ((ftl.changeZoneState zid .closed).releaseZoneResource .openZone, nvmeScSuccess)
  | .closed => (ftl, nvmeScSuccess)
  | _ => (ftl, nvmeScZnsInvalidTransition)

/-- The part of finish and reset that the opened states fall through to. -/
def leaveActive (ftl : ZnsFtl) (zrwa : Bool) : ZnsFtl :=
  let ftl := ftl.releaseZoneResource .activeZone
  if zrwa then ftl.releaseZoneResource .zrwaZone else ftl

def zmgmtSendFinishZone (ftl : ZnsFtl) (zid : Nat) : ZnsFtl × Nat :=
  let isZrwaZone := (ftl.zoneDescs zid).zrwav
  match (ftl.zoneDescs zid).state with
  | .openedImpl | .openedExpl =>
    ((leaveActive (ftl.releaseZoneResource .openZone) isZrwaZone).changeZoneState zid .full, nvmeScSuccess)
  | .closed => ((leaveActive ftl isZrwaZone).changeZoneState zid .full, nvmeScSuccess)
  | .empty => (ftl.changeZoneState zid .full, nvmeScSuccess)
  | .full => (ftl, nvmeScSuccess)
  | _ => (ftl, nvmeScZnsInvalidTransition)

/-- `case ZONE_STATE_CLOSED` of open and what follows it. -/
def openClosedZone (ftl : ZnsFtl) (zid : Nat) : ZnsFtl × Nat :=
  match ftl.acquireZoneResource .openZone with
  | (ftl, false) => (ftl, nvmeScZnsNoOpenZone)
  | (ftl, true) => (ftl.changeZoneState zid .openedExpl, nvmeScSuccess)

def zmgmtSendOpenZone (ftl : ZnsFtl) (zid zrwa : Nat) : ZnsFtl × Nat :=
  match (ftl.zoneDescs zid).state with
  | .empty =>
    if ftl.isZoneResourceFull .activeZone then (ftl, nvmeScZnsNoActiveZone)
    else if ftl.isZoneResourceFull .openZone then (ftl, nvmeScZnsNoOpenZone)
    else if zrwa ≠ 0 then
      if ftl.isZoneResourceFull .zrwaZone then (ftl, nvmeScZnsZrwaRsrcUnavail)
      else
        let ftl := (ftl.acquireZoneResource .zrwaZone).1
        let ftl := ftl.setDesc zid { ftl.zoneDescs zid with zrwav := true }
        openClosedZone (ftl.acquireZoneResource .activeZone).1 zid
    else openClosedZone (ftl.acquireZoneResource .activeZone).1 zid
  | .closed => openClosedZone ftl zid
  | .openedImpl => (ftl.changeZoneState zid .openedExpl, nvmeScSuccess)
  | .openedExpl => (ftl, nvmeScSuccess)
  | _ => (ftl, nvmeScZnsInvalidTransition)

def bufferRefill (buf : Buffer) : Buffer := { buf with remaining := buf.size }

/-- The source clears the storage of the zone as well, which is not part of `ZnsFtl`. -/
def resetZone (ftl : ZnsFtl) (zid : Nat) : ZnsFtl :=
  let d := ftl.zoneDescs zid
  let ftl := ftl.setDesc zid { d with wp := d.zslba, zrwav := false }
  if ftl.zp.zrwaBufferSize ≠ 0 then
    { ftl with zwraBuffer := Function.update ftl.zwraBuffer zid (bufferRefill (ftl.zwraBuffer zid)) }
  else ftl

def toEmpty (ftl : ZnsFtl) (zid : Nat) : ZnsFtl := resetZone (ftl.changeZoneState zid .empty) zid

def zmgmtSendResetZone (ftl : ZnsFtl) (zid : Nat) : ZnsFtl × Nat :=
  let isZrwaZone := (ftl.zoneDescs zid).zrwav
  match (ftl.zoneDescs zid).state with
  | .openedImpl | .openedExpl =>
    (toEmpty (leaveActive (ftl.releaseZoneResource .openZone) isZrwaZone) zid, nvmeScSuccess)
  | .closed => (toEmpty (leaveActive ftl isZrwaZone) zid, nvmeScSuccess)
  | .full | .empty => (toEmpty ftl zid, nvmeScSuccess)
  | _ => (ftl, nvmeScZnsInvalidTransition)

def zmgmtSendOfflineZone (ftl : ZnsFtl) (zid : Nat) : ZnsFtl × Nat :=
  match (ftl.zoneDescs zid).state with
  | .readOnly => (ftl.changeZoneState zid .offline, nvmeScSuccess)
  | .offline => (ftl, nvmeScSuccess)
  | _ => (ftl, nvmeScZnsInvalidTransition)

/-- The zone is filled up to `slba`; at its end it becomes full. -/
def flushExplicit (ftl : ZnsFtl) (zid slba : Nat) : ZnsFtl :=
  let d := ftl.zoneDescs zid
  let wp := u64 (slba + 1)
  let ftl := ftl.setDesc zid { d with wp := wp }
  if wp = u64 (zoneToSlba spp ftl.zp zid + d.zoneCapacity) then
    let ftl := if d.state = .closed then ftl else ftl.releaseZoneResource .openZone
    let ftl := (ftl.releaseZoneResource .activeZone).releaseZoneResource .zrwaZone
    ftl.changeZoneState zid .full
  else ftl

def zmgmtSendFlushExplicitZrwa (ftl : ZnsFtl) (slba : Nat) : Except Fault (ZnsFtl × Nat) := do
  let zid := lbaToZone spp ftl.zp slba
  let d := ftl.zoneDescs zid
  let zrwaEnd := min (u64 (d.wp + ftl.zp.lbasPerZrwa + (2^64 - 1)))
    (u64 (zoneToSlba spp ftl.zp zid + d.zoneCapacity + (2^64 - 1)))
  let nrLbasFlush := u64 (slba + (2^64 - d.wp) + 1)
  if d.zrwav = false then return (ftl, nvmeScZnsInvalidZoneOperation)
  if ¬ (d.wp ≤ slba ∧ slba ≤ zrwaEnd) then return (ftl, nvmeScZnsInvalidZoneOperation)
  let granularity ← divisor ftl.zp.lbasPerZrwafg
  if nrLbasFlush % granularity ≠ 0 then return (ftl, nvmeScInvalidField)
  match d.state with
  | .openedExpl | .openedImpl | .closed => return (flushExplicit spp ftl zid slba, nvmeScSuccess)
  | _ => return (ftl, nvmeScZnsInvalidZoneOperation)

inductive ZoneSendAction where
  | close
  | finish
  | open
  | reset
  | offline
  | flushExplZrwa
  | other
  deriving Repr, DecidableEq

/-- An action that the `switch` does not have leaves `status` uninitialised: `garbage`. -/
def zmgmtSend (garbage : Nat) (ftl : ZnsFtl) (slba : Nat) (action : ZoneSendAction) (option : Nat) :
    Except Fault (ZnsFtl × Nat) := do
  let zid := lbaToZone spp ftl.zp slba
  if action = .other then return (ftl, garbage)
  if ftl.zp.nrZones ≤ zid then .error .badAddress
  match action with
  | .close => return zmgmtSendCloseZone ftl zid
  | .finish => return zmgmtSendFinishZone ftl zid
  | .open => return zmgmtSendOpenZone ftl zid option
  | .reset => return zmgmtSendResetZone ftl zid
  | .offline => return zmgmtSendOfflineZone ftl zid
  | .flushExplZrwa => zmgmtSendFlushExplicitZrwa spp ftl slba
  | .other => return (ftl, garbage)

/-- `select_all` runs the action on every zone and drops its status. -/
def znsZmgmtSend (garbage : Nat) (ftl : ZnsFtl) (selectAll : Bool) (slba : Nat)
    (action : ZoneSendAction) (option : Nat) : Except Fault (ZnsFtl × Nat) :=
  if selectAll then do
    let ftl ← upto (fun zid ftl => do
      let (ftl, _) ← zmgmtSend spp garbage ftl (zoneToSlba spp ftl.zp zid) action option
      return ftl) ftl.zp.nrZones ftl
    return (ftl, nvmeScSuccess)
  else zmgmtSend spp garbage ftl slba action option

end NVMeVirt
