import NVMeVirt.IoRun

/-!
# The worker thread

One turn of the inner loop of `nvmev_io_worker` on its cursor, for the builds other than
`KV_PROTOTYPE`, and `__fill_cq_result`. What a turn does outside its queue is listed in
order: the data transfer, then the completion entry or the release of buffer space.
-/

namespace NVMeVirt
set_option autoImplicit false
open Outcome

inductive WorkerAction where
  | performIo (sqid sqEntry : Nat)
  | fillCqResult (w : IoWork)
  | bufferRelease (writeBuffer bytes : Nat)
  deriving Repr, DecidableEq

def copyStep (w : IoWork) : IoWork × List WorkerAction :=
  if w.isCopied then (w, [])
  else ({ w with isCopied := true }, if w.isInternal then [] else [.performIo w.sqid w.sqEntry])

def completeStep (now : Nat) (w : IoWork) : IoWork × List WorkerAction :=
  if w.nsecsTarget ≤ now then
    ({ w with isCompleted := true },
      if w.isInternal then [.bufferRelease w.writeBuffer w.buffsToRelease] else [.fillCqResult w])
  else (w, [])

/-- One turn at `curr`: the worker, the next cursor, and what has been done. -/
def workerTurn (worker : IoWorker) (curr now : Nat) : IoWorker × Nat × List WorkerAction :=
  let worker := { worker with latestNsecs := now }
  let w := worker.workQueue curr
  if w.isCompleted then (worker, w.next, [])
  else
    let (w, copy) := copyStep w
    let (w, complete) := completeStep now w
    (worker.set curr w, w.next, copy ++ complete)

structure NvmeCompletion where
  result0 : Nat
  result1 : Nat
  sqHead : Nat
  sqId : Nat
  commandId : Nat
  status : Nat
  deriving Repr, DecidableEq

structure CompletionQueue where
  queueSize : Nat
  phase : Bool
  cqHead : Nat
  interruptReady : Bool
  cq : Nat → NvmeCompletion

/-- The entry for `w`: 16-bit fields, the phase in the lowest bit of the status. -/
def completionOf (phase : Bool) (w : IoWork) : NvmeCompletion where
  result0 := w.result0
  result1 := w.result1
  sqHead := w.sqEntry % 2^16
  sqId := w.sqid % 2^16
  commandId := w.commandId % 2^16
  status := (phase.toNat + w.status * 2) % 2^16

def fillCqResult (cq : CompletionQueue) (w : IoWork) : CompletionQueue :=
  let cqHead := cq.cqHead + 1
  { cq with
    cq := Function.update cq.cq cq.cqHead (completionOf cq.phase w)
    cqHead := if cqHead = cq.queueSize then 0 else cqHead
    phase := if cqHead = cq.queueSize then !cq.phase else cq.phase
    interruptReady := true }

/-- An entry without its links and flags: what the dispatcher has put in. -/
def IoWork.load (w : IoWork) : IoWork :=
  { w with next := 0, prev := 0, isCopied := false, isCompleted := false }

theorem IoWork.load_congr {w w' : IoWork} (h : w'.data = w.data) : w'.load = w.load := by
  have hd : ∀ v : IoWork, v.load = { v.data with isCopied := false, isCompleted := false } := fun _ => rfl
  rw [hd, hd, h]

theorem IoWork.isCompleted_congr {w w' : IoWork} (h : w'.data = w.data) :
    w'.isCompleted = w.isCompleted :=
  calc w'.isCompleted = w'.data.isCompleted := rfl
    _ = w.data.isCompleted := by rw [h]
    _ = w.isCompleted := rfl

theorem IoWork.data_congr {w w' : IoWork} (h : w'.data = w.data) :
    w'.sqEntry = w.sqEntry ∧ w'.isInternal = w.isInternal ∧ w'.isCopied = w.isCopied := by
  simp only [IoWork.data, IoWork.mk.injEq] at h
  exact ⟨h.2.2.1, h.2.2.2.2.2.2.2.2.2.2.2.2.1, h.2.2.2.2.2.2.2.1⟩

theorem IoWork.load_fields {w w' : IoWork} (h : w'.load = w.load) :
    w'.sqEntry = w.sqEntry ∧ w'.isInternal = w.isInternal := by
  simp only [IoWork.load, IoWork.mk.injEq] at h
  exact ⟨h.2.2.1, h.2.2.2.2.2.2.2.2.2.2.2.2.1⟩

/-- The transfer that the first visit makes. -/
def copyActions (w : IoWork) : List WorkerAction :=
  if w.isCopied || w.isInternal then [] else [.performIo w.sqid w.sqEntry]

def finishOf (w : IoWork) : WorkerAction :=
  if w.isInternal then .bufferRelease w.writeBuffer w.buffsToRelease else .fillCqResult w

theorem copyStep_eq (w : IoWork) : copyStep w = ({ w with isCopied := true }, copyActions w) := by
  unfold copyStep copyActions
  cases hc : w.isCopied with
  | false => rfl
  | true =>
    have hw : { w with isCopied := true } = w := by rw [← hc]
    rw [hw]
    rfl

variable {worker : IoWorker} {curr now : Nat}

theorem workerTurn_skip (h : (worker.workQueue curr).isCompleted = true) :
    workerTurn worker curr now = ({ worker with latestNsecs := now }, worker.next curr, []) := by
  unfold workerTurn
  rw [if_pos h]
  rfl

theorem workerTurn_wait (h : (worker.workQueue curr).isCompleted = false)
    (ht : now < (worker.workQueue curr).nsecsTarget) :
    workerTurn worker curr now = (IoWorker.set { worker with latestNsecs := now } curr
        { worker.workQueue curr with isCopied := true }, worker.next curr,
      copyActions (worker.workQueue curr)) := by
  unfold workerTurn
  rw [if_neg (by simp [h])]
  simp only [copyStep_eq, completeStep, if_neg (Nat.not_le.mpr ht), List.append_nil]
  rfl

theorem workerTurn_finish (h : (worker.workQueue curr).isCompleted = false)
    (ht : (worker.workQueue curr).nsecsTarget ≤ now) :
    workerTurn worker curr now = (IoWorker.set { worker with latestNsecs := now } curr
        { worker.workQueue curr with isCopied := true, isCompleted := true }, worker.next curr,
      copyActions (worker.workQueue curr) ++
        [finishOf { worker.workQueue curr with isCopied := true }]) := by
  unfold workerTurn
  rw [if_neg (by simp [h])]
  simp only [copyStep_eq, completeStep, if_pos ht, finishOf]
  cases (worker.workQueue curr).isInternal with
  | false => rfl
  | true => rfl

/-- A turn leaves the lists and what the dispatcher has put in; it touches one entry. -/
structure Turned (worker : IoWorker) (curr now : Nat) : Prop where
  next : (workerTurn worker curr now).2.1 = worker.next curr
  lists : ∀ free io, Lists worker free io → Lists (workerTurn worker curr now).1 free io
  load : ∀ i, ((workerTurn worker curr now).1.workQueue i).load = (worker.workQueue i).load
  others : ∀ i, i ≠ curr → (workerTurn worker curr now).1.workQueue i = worker.workQueue i

theorem turned_of_set {w : IoWork} {actions : List WorkerAction}
    (h : workerTurn worker curr now =
      (IoWorker.set { worker with latestNsecs := now } curr w, worker.next curr, actions))
    (hload : w.load = (worker.workQueue curr).load) (hnext : w.next = worker.next curr)
    (hprev : w.prev = worker.prev curr) : Turned worker curr now := by
  refine ⟨by rw [h], ?_, ?_, ?_⟩
  · intro free io k
    rw [h]
    refine k.congr ?_ ?_ rfl rfl rfl rfl
    · rw [IoWorker.set_next, hnext]
      exact Function.update_eq_self curr worker.next
    · rw [IoWorker.set_prev, hprev]
      exact Function.update_eq_self curr worker.prev
  · intro i
    rw [h]
    by_cases hi : i = curr
    · subst hi
      simpa [IoWorker.set] using hload
    · simp [IoWorker.set, hi]
  · intro i hi
    rw [h]
    simp [IoWorker.set, hi]

theorem workerTurn_turned (worker : IoWorker) (curr now : Nat) : Turned worker curr now := by
  cases hc : (worker.workQueue curr).isCompleted with
  | true =>
    have h : workerTurn worker curr now = ({ worker with latestNsecs := now }, worker.next curr, []) :=
      workerTurn_skip hc
    refine ⟨by rw [h], ?_, fun i => by rw [h], fun i _ => by rw [h]⟩
    intro free io k
    rw [h]
    exact k.congr rfl rfl rfl rfl rfl rfl
  | false =>
    rcases Nat.lt_or_ge now (worker.workQueue curr).nsecsTarget with ht | ht
    · exact turned_of_set (workerTurn_wait hc ht) rfl rfl rfl
    · exact turned_of_set (workerTurn_finish hc ht) rfl rfl rfl

theorem mem_copyActions {w : IoWork} {sqid sqEntry : Nat} (h : .performIo sqid sqEntry ∈ copyActions w) :
    w.isCopied = false ∧ w.isInternal = false ∧ sqid = w.sqid ∧ sqEntry = w.sqEntry := by
  unfold copyActions at h
  split at h
  · exact absurd h List.not_mem_nil
  · rename_i hno
    simp only [Bool.or_eq_true, not_or, Bool.not_eq_true] at hno
    injection List.mem_singleton.mp h with hs he
    exact ⟨hno.1, hno.2, hs, he⟩

/-- A transfer is made for an entry that is neither completed, copied nor internal. -/
theorem workerTurn_performIo {sqid sqEntry : Nat}
    (h : .performIo sqid sqEntry ∈ (workerTurn worker curr now).2.2) :
    (worker.workQueue curr).isCompleted = false ∧ (worker.workQueue curr).isCopied = false ∧
    (worker.workQueue curr).isInternal = false ∧ sqid = (worker.workQueue curr).sqid ∧
    sqEntry = (worker.workQueue curr).sqEntry := by
  cases hc : (worker.workQueue curr).isCompleted with
  | true =>
    rw [workerTurn_skip hc] at h
    exact absurd h List.not_mem_nil
  | false =>
    refine ⟨rfl, ?_⟩
    rcases Nat.lt_or_ge now (worker.workQueue curr).nsecsTarget with ht | ht
    · rw [workerTurn_wait hc ht] at h
      exact mem_copyActions h
    · rw [workerTurn_finish hc ht] at h
      rcases List.mem_append.mp h with h | h
      · exact mem_copyActions h
      · have hf := List.mem_singleton.mp h
        unfold finishOf at hf
        split at hf
        · cases hf
        · cases hf

/-- After a turn the entry at the cursor is copied, unless it was completed already. -/
theorem workerTurn_copied (h : ((workerTurn worker curr now).1.workQueue curr).isCopied = false) :
    (worker.workQueue curr).isCopied = false ∧ (worker.workQueue curr).isCompleted = true := by
  cases hc : (worker.workQueue curr).isCompleted with
  | true =>
    rw [workerTurn_skip hc] at h
    exact ⟨h, rfl⟩
  | false =>
    rcases Nat.lt_or_ge now (worker.workQueue curr).nsecsTarget with ht | ht
    · rw [workerTurn_wait hc ht] at h
      simp [IoWorker.set] at h
    · rw [workerTurn_finish hc ht] at h
      simp [IoWorker.set] at h

end NVMeVirt
