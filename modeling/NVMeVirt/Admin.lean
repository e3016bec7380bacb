import NVMeVirt.IoThread
import NVMeVirt.IoDispatch
import NVMeVirt.ZnsFtl

/-!
# The admin queue

`admin.c`: the commands of the admin submission queue, the completions posted for them, and
what they do to the tables of I/O queues. Host memory is read and written by page: submission
entries, completion entries and the data pages that identify and log commands fill.
-/

namespace NVMeVirt
set_option autoImplicit false
open Outcome

def nrMaxIoQueue : Nat := 72
def nrSqePerPage : Nat := 64
def nrCqePerPage : Nat := 256

/-- A submission entry: the fields the handlers read through the views of `struct nvme_command`. -/
structure NvmeAdminCommand where
  opcode : Nat
  commandId : Nat
  nsid : Nat
  prp1 : Nat
  cdw10 : Nat
  cdw11 : Nat
  deriving Repr, DecidableEq

namespace NvmeAdminCommand
variable (cmd : NvmeAdminCommand)

/-- `delete_queue.qid`, `create_cq.cqid` and `create_sq.sqid`. -/
def qid : Nat := cmd.cdw10 % 2^16
def qsize : Nat := cmd.cdw10 / 2^16 % 2^16
/-- `create_sq.cqid` and `create_cq.irq_vector`. -/
def cqid : Nat := cmd.cdw11 / 2^16 % 2^16
def cns : Nat := cmd.cdw10
def fid : Nat := cmd.cdw10
def lid : Nat := cmd.cdw10 % 2^8
def numdl : Nat := cmd.cdw10 / 2^16 % 2^16
def numdu : Nat := cmd.cdw11 % 2^16

end NvmeAdminCommand

/-- The pages of a queue array: the page frame of the first one and how many there are. -/
structure QueuePages where
  page : Nat
  numPages : Nat
  deriving Repr, DecidableEq

/-- `none` is the NULL of an array that has not been set up. -/
structure AdminQueue where
  phase : Bool
  sqDepth : Nat
  cqDepth : Nat
  cqHead : Nat
  nvmeSq : Option QueuePages
  nvmeCq : Option QueuePages
  deriving Repr, DecidableEq

/-- What an identify or log command puts on the page at `prp1`. -/
inductive AdminPage where
  | idNs (nlbaf flbas nsze ncap nuse : Nat)
  | idCtrl (nn mdts sqes cqes acl : Nat)
  | nsList (ids : List Nat)
  | nsDesc (nidt nidl csi : Nat)
  | idZnsNs (mar mor ozcs numzrwa zrwafg zrwasz zrwacap zsze : Nat)
  | idZnsCtrl (zasl : Nat)
  | smartLog (len : Nat)
  | effectsLog (len : Nat)
  | zeroes (len : Nat)
  deriving Repr, DecidableEq

/-- Host memory: admin entries by page and offset, I/O queue entries by address and slot,
and the data page that was last filled at an address. -/
structure HostMem where
  adminSq : Nat → Nat → NvmeAdminCommand
  adminCq : Nat → Nat → NvmeCompletion
  ioSq : Nat → Nat → NvmeRwCommand
  ioCq : Nat → Nat → NvmeCompletion
  data : Nat → Option AdminPage

/-- What the identify commands read of `struct nvmev_ns`; `zns` is there when `NS_SSD_TYPE`
is `SSD_TYPE_ZNS`. -/
structure IdentifyNs where
  csi : Nat
  size : Nat
  zns : Option ZnsParams

/-- `struct nvmev_dev`, as far as the dispatcher's queue management uses it. -/
structure NvmevDev where
  adminQ : Option AdminQueue
  sqes : Nat → Option SubmissionQueue
  cqes : Nat → Option CompletionQueue
  dbs : Nat → Nat
  oldDbs : Nat → Nat
  nrSq : Nat
  nrCq : Nat
  ns : List IdentifyNs
  mdts : Nat
  mem : HostMem

def nvmeScInvalidOpcode : Nat := 0x1

/-- `nvmev_vdev->admin_q`, about to be dereferenced. -/
def NvmevDev.queue (v : NvmevDev) : Except Fault AdminQueue :=
  match v.adminQ with
  | none => .error .badAddress
  | some queue => .ok queue

def pageEntry (pages : Option QueuePages) (perPage entryId : Nat) : Except Fault (Nat × Nat) :=
  match pages with
  | none => .error .badAddress
  | some p => if entryId / perPage < p.numPages then .ok (p.page + entryId / perPage, entryId % perPage)
    else .error .badAddress

def sqEntryAddr (queue : AdminQueue) (entryId : Nat) : Except Fault (Nat × Nat) :=
  pageEntry queue.nvmeSq nrSqePerPage entryId

def cqEntryAddr (queue : AdminQueue) (entryId : Nat) : Except Fault (Nat × Nat) :=
  pageEntry queue.nvmeCq nrCqePerPage entryId

def NvmevDev.sqEntry (v : NvmevDev) (entryId : Nat) : Except Fault NvmeAdminCommand := do
  let queue ← v.queue
  let at' ← sqEntryAddr queue entryId
  return v.mem.adminSq at'.1 at'.2

def HostMem.setAdminCq (mem : HostMem) (page offset : Nat) (cqe : NvmeCompletion) : HostMem :=
  { mem with adminCq := Function.update mem.adminCq page (Function.update (mem.adminCq page) offset cqe) }

def HostMem.fill (mem : HostMem) (prp : Nat) (page : AdminPage) : HostMem :=
  { mem with data := Function.update mem.data prp (some page) }

def AdminQueue.advance (queue : AdminQueue) : AdminQueue :=
  if queue.cqHead + 1 = queue.cqDepth then { queue with cqHead := 0, phase := !queue.phase }
  else { queue with cqHead := queue.cqHead + 1 }

def adminCompletion (phase : Bool) (cmd : NvmeAdminCommand) (eid ret result0 result1 : Nat) :
    NvmeCompletion where
  result0 := result0
  result1 := result1
  sqHead := eid % 2^16
  sqId := 0
  commandId := cmd.commandId
  status := (phase.toNat + ret * 2) % 2^16

def makeCqEntryResults (eid ret result0 result1 : Nat) (v : NvmevDev) : Except Fault NvmevDev := do
  let queue ← v.queue
  let cmd ← v.sqEntry eid
  let at' ← cqEntryAddr queue queue.cqHead
  return { v with
    mem := v.mem.setAdminCq at'.1 at'.2 (adminCompletion queue.phase cmd eid ret result0 result1)
    adminQ := some queue.advance }

def makeCqEntry (eid ret : Nat) (v : NvmevDev) : Except Fault NvmevDev :=
  makeCqEntryResults eid ret 0 0 v

/-- The tables of I/O queues have `NR_MAX_IO_QUEUE + 1` places. -/
def queueIndex (qid : Nat) : Except Fault Nat :=
  if qid ≤ nrMaxIoQueue then .ok qid else .error .badAddress

/-- The queue that `__nvmev_admin_create_cq` allocates over the slots at `prp1`. -/
def createdCq (qsize : Nat) (slots : Nat → NvmeCompletion) : CompletionQueue where
  queueSize := qsize + 1
  phase := true
  cqHead := 0
  interruptReady := false
  cq := slots

def createdSq (qsize cqid : Nat) (slots : Nat → NvmeRwCommand) : SubmissionQueue where
  cqid := cqid
  queueSize := qsize + 1
  sq := slots
  stat := ⟨0, 0, 0, 0, 0⟩

/-- Both copies of a doorbell back to zero. -/
def NvmevDev.clearDb (v : NvmevDev) (dbsIdx : Nat) : NvmevDev :=
  { v with dbs := Function.update v.dbs dbsIdx 0, oldDbs := Function.update v.oldDbs dbsIdx 0 }

def NvmevDev.setCq (v : NvmevDev) (qid : Nat) (cq : Option CompletionQueue) : NvmevDev :=
  { v with cqes := Function.update v.cqes qid cq }

def NvmevDev.setSq (v : NvmevDev) (qid : Nat) (sq : Option SubmissionQueue) : NvmevDev :=
  { v with sqes := Function.update v.sqes qid sq }

def adminCreateCq (eid : Nat) (v : NvmevDev) : Except Fault NvmevDev := do
  let cmd ← v.sqEntry eid
  let qid ← queueIndex cmd.qid
  makeCqEntry eid nvmeScSuccess
    ((v.setCq qid (some (createdCq cmd.qsize (v.mem.ioCq cmd.prp1)))).clearDb (qid * 2 + 1))

def adminDeleteCq (eid : Nat) (v : NvmevDev) : Except Fault NvmevDev := do
  let cmd ← v.sqEntry eid
  let qid ← queueIndex cmd.qid
  makeCqEntry eid nvmeScSuccess (v.setCq qid none)

def adminCreateSq (eid : Nat) (v : NvmevDev) : Except Fault NvmevDev := do
  let cmd ← v.sqEntry eid
  let qid ← queueIndex cmd.qid
  makeCqEntry eid nvmeScSuccess
    ((v.setSq qid (some (createdSq cmd.qsize cmd.cqid (v.mem.ioSq cmd.prp1)))).clearDb (qid * 2))

def adminDeleteSq (eid : Nat) (v : NvmevDev) : Except Fault NvmevDev := do
  let cmd ← v.sqEntry eid
  let qid ← queueIndex cmd.qid
  makeCqEntry eid nvmeScSuccess (v.setSq qid none)

def NvmevDev.fill (v : NvmevDev) (prp : Nat) (page : AdminPage) : NvmevDev :=
  { v with mem := v.mem.fill prp page }

def nvmeLogSmart : Nat := 0x02
def nvmeLogCmdEffects : Nat := 0x05

/-- `sizeof(struct nvme_smart_log)` and `sizeof(struct nvme_effects_log)`. -/
def smartLogSize : Nat := 512
def effectsLogSize : Nat := 4096

def logLen (cmd : NvmeAdminCommand) : Nat := u32 ((cmd.numdu * 2^16 + cmd.numdl + 1) * 4)

/-- The copy of a static log of `size` bytes reads no further than its end. -/
def copyLog (size len : Nat) (page : AdminPage) : Except Fault AdminPage :=
  if len ≤ size then .ok page else .error .badAddress

def logPage (cmd : NvmeAdminCommand) : Except Fault AdminPage :=
  if cmd.lid = nvmeLogSmart then copyLog smartLogSize (logLen cmd) (.smartLog (logLen cmd))
  else if cmd.lid = nvmeLogCmdEffects then
    copyLog effectsLogSize (logLen cmd) (.effectsLog (logLen cmd))
  else .ok (.zeroes (logLen cmd))

def adminGetLogPage (eid : Nat) (v : NvmevDev) : Except Fault NvmevDev := do
  let cmd ← v.sqEntry eid
  let page ← logPage cmd
  makeCqEntry eid nvmeScSuccess (v.fill cmd.prp1 page)

/-- `ns[cmd->nsid - 1]`. -/
def NvmevDev.identifyNs (v : NvmevDev) (cmd : NvmeAdminCommand) : Except Fault IdentifyNs :=
  match v.ns[u32 (cmd.nsid + (2^32 - 1))]? with
  | none => .error .badAddress
  | some ns => .ok ns

def adminIdentifyNamespace (eid : Nat) (v : NvmevDev) : Except Fault NvmevDev := do
  let cmd ← v.sqEntry eid
  let ns ← v.identifyNs cmd
  let nsze := ns.size / lbaSize
  makeCqEntry eid nvmeScSuccess (v.fill cmd.prp1 (.idNs 6 0 nsze nsze nsze))

def adminIdentifyNamespaces (eid : Nat) (v : NvmevDev) : Except Fault NvmevDev := do
  let cmd ← v.sqEntry eid
  let ids := (List.range' 1 v.ns.length).filter (cmd.nsid < ·)
  makeCqEntry eid nvmeScSuccess (v.fill cmd.prp1 (.nsList ids))

def adminIdentifyNamespaceDesc (eid : Nat) (v : NvmevDev) : Except Fault NvmevDev := do
  let cmd ← v.sqEntry eid
  let ns ← v.identifyNs cmd
  makeCqEntry eid nvmeScSuccess (v.fill cmd.prp1 (.nsDesc 4 1 ns.csi))

def nvmeCsiZns : Nat := 0x2

/-- The limits that a zoned namespace advertises. -/
def idZnsNs (zpp : ZnsParams) : AdminPage :=
  let zrwa := 0 < zpp.nrZrwaZones
  .idZnsNs (u32 (zpp.nrActiveZones + (2^32 - 1))) (u32 (zpp.nrOpenZones + (2^32 - 1)))
    (if zrwa then 2 else 0) (if zrwa then u32 (zpp.nrZrwaZones + (2^32 - 1)) else 0)
    (if zrwa then zpp.zrwafgSize % 2^16 else 0) (if zrwa then zpp.zrwaSize % 2^16 else 0)
    (if zrwa then 1 else 0) (zpp.zoneSize / lbaSize)

def adminIdentifyZnsNamespace (eid : Nat) (v : NvmevDev) : Except Fault NvmevDev := do
  let cmd ← v.sqEntry eid
  let ns ← v.identifyNs cmd
  match ns.zns with
  | none => makeCqEntry eid nvmeScSuccess v
  | some zpp =>
    nvmevAssert (ns.csi = nvmeCsiZns)
    makeCqEntry eid nvmeScSuccess (v.fill cmd.prp1 (idZnsNs zpp))

def adminIdentifyZnsCtrl (eid : Nat) (v : NvmevDev) : Except Fault NvmevDev := do
  let cmd ← v.sqEntry eid
  makeCqEntry eid nvmeScSuccess (v.fill cmd.prp1 (.idZnsCtrl 0))

def adminIdentifyCtrl (eid : Nat) (v : NvmevDev) : Except Fault NvmevDev := do
  let cmd ← v.sqEntry eid
  makeCqEntry eid nvmeScSuccess (v.fill cmd.prp1 (.idCtrl v.ns.length v.mdts 0x66 0x44 3))

def adminIdentify (eid : Nat) (v : NvmevDev) : Except Fault NvmevDev := do
  let cmd ← v.sqEntry eid
  if cmd.cns = 0x00 then adminIdentifyNamespace eid v
  else if cmd.cns = 0x01 then adminIdentifyCtrl eid v
  else if cmd.cns = 0x02 then adminIdentifyNamespaces eid v
  else if cmd.cns = 0x03 then adminIdentifyNamespaceDesc eid v
  else if cmd.cns = 0x05 then adminIdentifyZnsNamespace eid v
  else if cmd.cns = 0x06 then adminIdentifyZnsCtrl eid v
  else makeCqEntry eid nvmeScInvalidOpcode v

def nvmeFeatNumQueues : Nat := 0x07

/-- `(nr_cq - 1) << 16 | (nr_sq - 1)`. -/
def numQueuesResult (v : NvmevDev) : Nat :=
  u32 (u32 (v.nrCq + (2^32 - 1)) * 2^16) ||| u32 (v.nrSq + (2^32 - 1))

def adminSetFeatures (eid : Nat) (v : NvmevDev) : Except Fault NvmevDev := do
  let cmd ← v.sqEntry eid
  if cmd.fid = nvmeFeatNumQueues then
    let v := { v with
      nrSq := min (cmd.cdw11 % 2^16 + 1) nrMaxIoQueue
      nrCq := min (cmd.cdw11 / 2^16 % 2^16 + 1) nrMaxIoQueue }
    makeCqEntryResults eid nvmeScSuccess (numQueuesResult v) 0 v
  else makeCqEntryResults eid nvmeScSuccess 0 0 v

def adminGetFeatures (eid : Nat) (v : NvmevDev) : Except Fault NvmevDev := do
  let cmd ← v.sqEntry eid
  if cmd.fid = nvmeFeatNumQueues then makeCqEntryResults eid nvmeScSuccess (numQueuesResult v) 0 v
  else makeCqEntryResults eid nvmeScSuccess 0 0 v

def adminAsyncEvent (eid : Nat) (v : NvmevDev) : Except Fault NvmevDev :=
  makeCqEntry eid nvmeScSuccess v

inductive AdminOpcode where
  | deleteSq | createSq | getLogPage | deleteCq | createCq | identify | abortCmd | setFeatures
  | getFeatures | asyncEvent | unhandled
  deriving Repr, DecidableEq

/-- The `case` labels of `__nvmev_proc_admin_req`. -/
def adminOpcode : Nat → AdminOpcode
  | 0x00 => .deleteSq
  | 0x01 => .createSq
  | 0x02 => .getLogPage
  | 0x04 => .deleteCq
  | 0x05 => .createCq
  | 0x06 => .identify
  | 0x08 => .abortCmd
  | 0x09 => .setFeatures
  | 0x0a => .getFeatures
  | 0x0c => .asyncEvent
  | _ => .unhandled

def procAdminReq (entryId : Nat) (v : NvmevDev) : Except Fault NvmevDev := do
  let sqe ← v.sqEntry entryId
  match adminOpcode sqe.opcode with
  | .deleteSq => adminDeleteSq entryId v
  | .createSq => adminCreateSq entryId v
  | .getLogPage => adminGetLogPage entryId v
  | .deleteCq => adminDeleteCq entryId v
  | .createCq => adminCreateCq entryId v
  | .identify => adminIdentify entryId v
  | .abortCmd => .ok v
  | .setFeatures => adminSetFeatures entryId v
  | .getFeatures => adminGetFeatures entryId v
  | .asyncEvent => adminAsyncEvent entryId v
  | .unhandled => makeCqEntry entryId nvmeScInvalidOpcode v

/-- The `for` loop of `nvmev_proc_admin_sq` over the remaining entries. -/
def procAdminLoop (sqDepth : Nat) : Nat → Nat → NvmevDev → Except Fault NvmevDev
  | 0, _, v => .ok v
  | n + 1, curr, v => do
    let v ← procAdminReq curr v
    procAdminLoop sqDepth n (if curr + 1 = sqDepth then 0 else curr + 1) v

def nvmevProcAdminSq (newDb oldDb : Nat) (v : NvmevDev) : Except Fault NvmevDev := do
  let queue ← v.queue
  let numProc := if newDb < oldDb then newDb + queue.sqDepth - oldDb else newDb - oldDb
  procAdminLoop queue.sqDepth numProc oldDb v

end NVMeVirt
