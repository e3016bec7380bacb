import NVMeVirt.Admin
import NVMeVirt.Lib.Ring

/-!
# Doorbells

`nvmev_proc_dbs`: the admin queue, the submission queues and the completion queues, each
between the doorbell value seen last and the present one.
-/

namespace NVMeVirt
set_option autoImplicit false
open Outcome Ring

/-- The device behind the registers: the queue tables, the work queues and the namespaces. -/
structure Device (σ : Type) where
  adm : NvmevDev
  io : IoDev
  ftl : σ

variable {σ : Type}

def Device.dispatcher (v : Device σ) : Dispatcher σ := ⟨v.io, v.ftl, v.adm.sqes⟩

def Device.setDispatcher (v : Device σ) (d : Dispatcher σ) : Device σ :=
  ⟨{ v.adm with sqes := d.sqes }, d.io, d.ftl⟩

def NvmevDev.setOldDb (v : NvmevDev) (dbsIdx value : Nat) : NvmevDev :=
  { v with oldDbs := Function.update v.oldDbs dbsIdx value }

@[simp] theorem NvmevDev.setOldDb_self (v : NvmevDev) (i value : Nat) :
    (v.setOldDb i value).oldDbs i = value :=
  Function.update_self _ _ _

theorem NvmevDev.setOldDb_other (v : NvmevDev) {i j : Nat} (value : Nat) (h : j ≠ i) :
    (v.setOldDb i value).oldDbs j = v.oldDbs j := Function.update_of_ne h _ _

def Device.setOldDb (v : Device σ) (dbsIdx value : Nat) : Device σ :=
  { v with adm := v.adm.setOldDb dbsIdx value }

/-- The admin queue: `dbs[0]` and `dbs[1]`. -/
def procDbsAdminSq (v : NvmevDev) : Except Fault NvmevDev :=
  if v.dbs 0 = v.oldDbs 0 then .ok v
  else do
    let v' ← nvmevProcAdminSq (v.dbs 0) (v.oldDbs 0) v
    return v'.setOldDb 0 (v.dbs 0)

/-- `nvmev_proc_admin_cq` does nothing. -/
def procDbsAdminCq (v : NvmevDev) : NvmevDev := v.setOldDb 1 (v.dbs 1)

def procDbsAdmin (v : NvmevDev) : Except Fault NvmevDev := do
  let v ← procDbsAdminSq v
  return procDbsAdminCq v

/-- One turn of the loop over the submission queues. -/
def procDbsSq (proc : ProcIoCmd σ) (wall now : Nat → Nat → Nat) (qid : Nat) (v : Device σ) :
    Except Fault (Device σ) := do
  match v.adm.sqes qid with
  | none => return v
  | some _ =>
    let dbsIdx := qid * 2
    let newDb := v.adm.dbs dbsIdx
    let oldDb := v.adm.oldDbs dbsIdx
    if newDb = oldDb then return v
    let (d, latestDb) ← nvmevProcIoSq proc v.dispatcher qid newDb oldDb (wall qid) (now qid)
    return (v.setDispatcher d).setOldDb dbsIdx latestDb

/-- `cq_entry(i)` of an I/O queue, whose pages hold `queue_size` entries, rounded up. -/
def cqEntry (cq : CompletionQueue) (i : Nat) : Except Fault NvmeCompletion :=
  if i / nrCqePerPage < divRoundUp (cq.queueSize * 16) 4096 then .ok (cq.cq i) else .error .badAddress

/-- `x--` of an unsigned int. -/
def predU32 (x : Nat) : Nat := if x = 0 then 2^32 - 1 else x - 1

def SubmissionQueue.finished (sq : SubmissionQueue) : SubmissionQueue :=
  { sq with stat := { sq.stat with nrInFlight := predU32 sq.stat.nrInFlight } }

def finishOne (sqid : Nat) (v : NvmevDev) : Except Fault NvmevDev := do
  let sqid ← queueIndex sqid
  return { v with sqes := Function.update v.sqes sqid ((v.sqes sqid).map SubmissionQueue.finished) }

/-- The `for` loop of `nvmev_proc_io_cq`; the entry is read before its index is checked. -/
def procIoCqLoop (cq : CompletionQueue) (newDb : Nat) : Nat → Nat → NvmevDev → Except Fault NvmevDev
  | 0, _, _ => .error .outOfFuel
  | fuel + 1, i, v =>
    if i = newDb then .ok v
    else do
      let cqe ← cqEntry cq i
      if cq.queueSize ≤ i then procIoCqLoop cq newDb fuel 0 v
      else do
        let v ← finishOne cqe.sqId v
        procIoCqLoop cq newDb fuel (i + 1) v

/-- More turns than any walk along the ring takes. -/
def nvmevProcIoCq (cqid newDb oldDb : Nat) (v : NvmevDev) : Except Fault NvmevDev :=
  match v.cqes cqid with
  | none => .error .badAddress
  | some cq => procIoCqLoop cq newDb (2 * cq.queueSize + 2) oldDb v

/-- One turn of the loop over the completion queues. -/
def procDbsCq (qid : Nat) (v : Device σ) : Except Fault (Device σ) := do
  match v.adm.cqes qid with
  | none => return v
  | some _ =>
    let dbsIdx := qid * 2 + 1
    let newDb := v.adm.dbs dbsIdx
    let oldDb := v.adm.oldDbs dbsIdx
    if newDb = oldDb then return v
    let adm ← nvmevProcIoCq qid newDb oldDb v.adm
    return { v with adm := adm.setOldDb dbsIdx newDb }

/-- The loops run over the queue ids from 1 on. -/
def procDbsSqs (proc : ProcIoCmd σ) (wall now : Nat → Nat → Nat) (n : Nat) (v : Device σ) :
    Except Fault (Device σ) := upto (fun k => procDbsSq proc wall now (k + 1)) n v

def procDbsCqs (n : Nat) (v : Device σ) : Except Fault (Device σ) := upto (fun k => procDbsCq (k + 1)) n v

def nvmevProcDbs (proc : ProcIoCmd σ) (wall now : Nat → Nat → Nat) (v : Device σ) :
    Except Fault (Device σ) := do
  let adm ← procDbsAdmin v.adm
  let v ← procDbsSqs proc wall now adm.nrSq { v with adm := adm }
  procDbsCqs v.adm.nrCq v

end NVMeVirt
