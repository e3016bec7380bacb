import NVMeVirt.ConvNamespace

/-!
# Work queues of the I/O workers

The index lists of `io.c`: every worker has `NR_MAX_PARALLEL_IO` work entries, chained by
`next` and `prev` into a free list and a list of requests in flight. `noEntry` is the `-1` of
these unsigned indices. The `while` loops over the links carry a number of turns, which
is the number of entries.
-/

namespace NVMeVirt
set_option autoImplicit false
open Outcome

def nrMaxParallelIo : Nat := 16384

def noEntry : Nat := 2^32 - 1

/-- The part of `struct nvme_rw_command` that the dispatcher and the workers read. -/
structure NvmeRwCommand where
  opcode : Nat
  commandId : Nat
  nsid : Nat
  prp1 : Nat
  prp2 : Nat
  slba : Nat
  length : Nat
  control : Nat
  deriving Repr, DecidableEq

/-- `write_buffer` is a pointer, `0` is `NULL`. -/
structure IoWork where
  sqid : Nat
  cqid : Nat
  sqEntry : Nat
  commandId : Nat
  nsecsStart : Nat
  nsecsTarget : Nat
  nsecsEnqueue : Nat
  isCopied : Bool
  isCompleted : Bool
  status : Nat
  result0 : Nat
  result1 : Nat
  isInternal : Bool
  writeBuffer : Nat
  buffsToRelease : Nat
  next : Nat
  prev : Nat
  deriving Repr, DecidableEq

structure IoWorker where
  workQueue : Nat → IoWork
  freeSeq : Nat
  freeSeqEnd : Nat
  ioSeq : Nat
  ioSeqEnd : Nat
  latestNsecs : Nat

structure IoDev where
  nrIoWorkers : Nat
  ioWorkerTurn : Nat
  ioWorkers : Nat → IoWorker

namespace IoWorker

def next (worker : IoWorker) (i : Nat) : Nat := (worker.workQueue i).next

def prev (worker : IoWorker) (i : Nat) : Nat := (worker.workQueue i).prev

def set (worker : IoWorker) (i : Nat) (w : IoWork) : IoWorker :=
  { worker with workQueue := Function.update worker.workQueue i w }

def setNext (worker : IoWorker) (i v : Nat) : IoWorker :=
  worker.set i { worker.workQueue i with next := v }

def setPrev (worker : IoWorker) (i v : Nat) : IoWorker :=
  worker.set i { worker.workQueue i with prev := v }

end IoWorker

/-- The `while (curr != -1)` of `__insert_req_sorted`, from the tail towards the head. -/
def insertAfter (worker : IoWorker) (nsecsTarget : Nat) : Nat → Nat → Except Fault Nat
  | 0, curr => if curr = noEntry then .ok noEntry else .error .outOfFuel
  | fuel + 1, curr =>
    if curr = noEntry then .ok noEntry
    else if (worker.workQueue curr).nsecsTarget ≤ worker.latestNsecs then .ok curr
    else if (worker.workQueue curr).nsecsTarget ≤ nsecsTarget then .ok curr
    else insertAfter worker nsecsTarget fuel (worker.workQueue curr).prev

def insertReqSorted (entry : Nat) (worker : IoWorker) (nsecsTarget : Nat) : Except Fault IoWorker :=
  if worker.ioSeq = noEntry then .ok { worker with ioSeq := entry, ioSeqEnd := entry }
  else do
    let curr ← insertAfter worker nsecsTarget nrMaxParallelIo worker.ioSeqEnd
    if curr = noEntry then
      let worker := (worker.setPrev worker.ioSeq entry).setNext entry worker.ioSeq
      return { worker with ioSeq := entry }
    else if (worker.workQueue curr).next = noEntry then
      let worker := { worker.setPrev entry curr with ioSeqEnd := entry }
      return worker.setNext curr entry
    else
      let worker := (worker.setPrev entry curr).setNext entry (worker.workQueue curr).next
      let worker := worker.setPrev (worker.workQueue entry).next entry
      return worker.setNext curr entry

/-- `(sqid - 1) % nr_io_workers` in unsigned arithmetic. -/
def getIoWorker (dev : IoDev) (sqid : Nat) : Except Fault Nat := do
  let n ← divisor dev.nrIoWorkers
  return u32 (sqid + (2^32 - 1)) % n

/-- What `__allocate_work_queue_entry` does to the worker that it picked; `none` is its `NULL`. -/
def allocateEntry (worker : IoWorker) : Except Fault (Option (IoWorker × Nat)) := do
  let e := worker.freeSeq
  let w := worker.workQueue e
  if nrMaxParallelIo ≤ w.next then return none
  let worker := { worker with freeSeq := w.next }
  nvmevAssert (worker.freeSeq < nrMaxParallelIo)
  return some (worker, e)

/-- Allocation, the assignments `fill` to the entry's fields, and the sorted insertion. -/
def placeEntry (worker : IoWorker) (fill : IoWork → IoWork) (nsecsTarget : Nat) :
    Except Fault (Option IoWorker) := do
  match ← allocateEntry worker with
  | none => return none
  | some (worker, entry) =>
    let worker ← insertReqSorted entry (worker.set entry (fill (worker.workQueue entry))) nsecsTarget
    return some worker

/-- The worker of the queue is picked and its turn is noted; without a free entry nothing changes. -/
def placeWork (dev : IoDev) (sqid : Nat) (fill : IoWork → IoWork) (nsecsTarget : Nat) :
    Except Fault IoDev := do
  let turn ← getIoWorker dev sqid
  match ← placeEntry (dev.ioWorkers turn) fill nsecsTarget with
  | none => return dev
  | some worker =>
    return { dev with
      ioWorkerTurn := if turn + 1 = dev.nrIoWorkers then 0 else turn + 1
      ioWorkers := Function.update dev.ioWorkers turn worker }

def requestWork (sqid cqid sqEntry commandId nsecsStart now : Nat) (ret : NvmevResult)
    (w : IoWork) : IoWork :=
  { w with
    sqid := sqid
    cqid := cqid
    sqEntry := sqEntry
    commandId := commandId
    nsecsStart := nsecsStart
    nsecsEnqueue := now
    nsecsTarget := ret.nsecsTarget
    status := ret.status
    isCompleted := false
    isCopied := false
    prev := noEntry
    next := noEntry
    isInternal := false }

/-- `now` is the reading of `local_clock()`. -/
def enqueueIoReq (dev : IoDev) (sqid cqid sqEntry commandId nsecsStart now : Nat)
    (ret : NvmevResult) : Except Fault IoDev :=
  placeWork dev sqid (requestWork sqid cqid sqEntry commandId nsecsStart now ret) ret.nsecsTarget

def internalWork (sqid nsecsTarget writeBuffer buffsToRelease now : Nat) (w : IoWork) : IoWork :=
  { w with
    sqid := sqid
    nsecsStart := now
    nsecsEnqueue := now
    nsecsTarget := nsecsTarget
    isCompleted := false
    isCopied := true
    prev := noEntry
    next := noEntry
    isInternal := true
    writeBuffer := writeBuffer
    buffsToRelease := buffsToRelease }

def scheduleInternalOperation (dev : IoDev) (sqid nsecsTarget writeBuffer buffsToRelease now : Nat) :
    Except Fault IoDev :=
  placeWork dev sqid (internalWork sqid nsecsTarget writeBuffer buffsToRelease now) nsecsTarget

def IoWork.reclaimable (w : IoWork) (latestNsecs : Nat) : Bool :=
  w.isCompleted && w.isCopied && decide (w.nsecsTarget ≤ latestNsecs)

/-- The `while (curr != -1)` of `__reclaim_completed_reqs`: the last entry of the completed
prefix, `last` when there is none. -/
def lastCompleted (worker : IoWorker) : Nat → Nat → Nat → Except Fault Nat
  | 0, last, curr => if curr = noEntry then .ok last else .error .outOfFuel
  | fuel + 1, last, curr =>
    if curr = noEntry then .ok last
    else if (worker.workQueue curr).reclaimable worker.latestNsecs then
      lastCompleted worker fuel curr (worker.workQueue curr).next
    else .ok last

/-- The entries from `io_seq` to `lastEntry` go to the end of the free list. -/
def splice (worker : IoWorker) (lastEntry : Nat) : IoWorker :=
  let firstEntry := worker.ioSeq
  let next := (worker.workQueue lastEntry).next
  let worker := { worker with ioSeq := next }
  let worker := if next = noEntry then worker else worker.setPrev next noEntry
  let worker := worker.setNext lastEntry noEntry
  let worker := worker.setPrev firstEntry worker.freeSeqEnd
  let worker := worker.setNext worker.freeSeqEnd firstEntry
  { worker with freeSeqEnd := lastEntry }

def reclaimWorker (worker : IoWorker) : Except Fault IoWorker := do
  let lastEntry ← lastCompleted worker nrMaxParallelIo noEntry worker.ioSeq
  if lastEntry = noEntry then return worker
  return splice worker lastEntry

def reclaimCompletedReqs (dev : IoDev) : Except Fault IoDev :=
  upto (fun turn dev => do
    let worker ← reclaimWorker (dev.ioWorkers turn)
    return { dev with ioWorkers := Function.update dev.ioWorkers turn worker }) dev.nrIoWorkers dev

def initWork (i : Nat) : IoWork where
  sqid := 0
  cqid := 0
  sqEntry := 0
  commandId := 0
  nsecsStart := 0
  nsecsTarget := 0
  nsecsEnqueue := 0
  isCopied := false
  isCompleted := false
  status := 0
  result0 := 0
  result1 := 0
  isInternal := false
  writeBuffer := 0
  buffsToRelease := 0
  next := if i = nrMaxParallelIo - 1 then noEntry else u32 (i + 1)
  prev := u32 (i + (2^32 - 1))

def initWorker : IoWorker where
  workQueue := initWork
  freeSeq := 0
  freeSeqEnd := nrMaxParallelIo - 1
  ioSeq := noEntry
  ioSeqEnd := noEntry
  latestNsecs := 0

def nvmevIoWorkerInit (nrIoWorkers : Nat) : IoDev where
  nrIoWorkers := nrIoWorkers
  ioWorkerTurn := 0
  ioWorkers := fun _ => initWorker

end NVMeVirt
