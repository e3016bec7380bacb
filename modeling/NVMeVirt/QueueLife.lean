import NVMeVirt.AdminCompletions
import NVMeVirt.IoTrace

/-!
# The life of a queue

Admin commands create and delete the queues, the dispatcher puts work for them into the work
queues, and the workers look the queues up again when they copy and when they complete. A
deletion takes effect at once, whatever is still in flight.
-/

namespace NVMeVirt
set_option autoImplicit false
open Outcome

variable {v v' : NvmevDev} {eid : Nat} {cmd : NvmeAdminCommand}

def TableStep (cmd : NvmeAdminCommand) (v v' : NvmevDev) : Prop :=
  match adminOpcode cmd.opcode with
  | .createSq => v'.cqes = v.cqes ∧ ∃ sq, v'.sqes = Function.update v.sqes cmd.qid (some sq)
  | .deleteSq => v'.cqes = v.cqes ∧ v'.sqes = Function.update v.sqes cmd.qid none
  | .createCq => v'.sqes = v.sqes ∧ ∃ cq, v'.cqes = Function.update v.cqes cmd.qid (some cq)
  | .deleteCq => v'.sqes = v.sqes ∧ v'.cqes = Function.update v.cqes cmd.qid none
  | _ => v'.sqes = v.sqes ∧ v'.cqes = v.cqes

/-- Whatever the computation returns has the tables of `v`. -/
def KeepsTables (v : NvmevDev) (x : Except Fault NvmevDev) : Prop :=
  ∀ v', x = .ok v' → v'.sqes = v.sqes ∧ v'.cqes = v.cqes

theorem KeepsTables.bind {α : Type} {x : Except Fault α} {f : α → Except Fault NvmevDev}
    (h : ∀ a, x = .ok a → KeepsTables v (f a)) : KeepsTables v (x >>= f) := by
  intro v' hv'
  obtain ⟨a, ha, hv'⟩ := bind_eq_ok.mp hv'
  exact h a ha v' hv'

theorem KeepsTables.ite {p : Prop} [Decidable p] {x y : Except Fault NvmevDev} (hx : KeepsTables v x)
    (hy : KeepsTables v y) : KeepsTables v (if p then x else y) := by
  split
  · exact hx
  · exact hy

theorem makeCqEntryResults_keeps {w : NvmevDev} (hs : w.sqes = v.sqes) (hc : w.cqes = v.cqes)
    (ret result0 result1 : Nat) : KeepsTables v (makeCqEntryResults eid ret result0 result1 w) := by
  refine .bind fun queue _ => .bind fun c _ => .bind fun addr _ => ?_
  intro v' hv'
  cases hv'
  exact ⟨hs, hc⟩

theorem makeCqEntry_keeps (ret : Nat) : KeepsTables v (makeCqEntry eid ret v) :=
  makeCqEntryResults_keeps rfl rfl ret 0 0

theorem fill_keeps (prp ret : Nat) (page : AdminPage) :
    KeepsTables v (makeCqEntry eid ret (v.fill prp page)) := makeCqEntryResults_keeps rfl rfl ret 0 0

theorem adminIdentifyZnsNamespace_keeps : KeepsTables v (adminIdentifyZnsNamespace eid v) := by
  refine .bind fun c _ => .bind fun ns _ => ?_
  cases ns.zns with
  | none => exact makeCqEntry_keeps _
  | some zpp => exact .bind fun _ _ => fill_keeps _ _ _

theorem adminIdentify_keeps : KeepsTables v (adminIdentify eid v) := by
  refine .bind fun c _ => ?_
  apply KeepsTables.ite
  · exact .bind fun c _ => .bind fun ns _ => fill_keeps _ _ _
  apply KeepsTables.ite
  · exact .bind fun c _ => fill_keeps _ _ _
  apply KeepsTables.ite
  · exact .bind fun c _ => fill_keeps _ _ _
  apply KeepsTables.ite
  · exact .bind fun c _ => .bind fun ns _ => fill_keeps _ _ _
  apply KeepsTables.ite
  · exact adminIdentifyZnsNamespace_keeps
  apply KeepsTables.ite
  · exact .bind fun c _ => fill_keeps _ _ _
  · exact makeCqEntry_keeps _

theorem adminSetFeatures_keeps : KeepsTables v (adminSetFeatures eid v) := by
  refine .bind fun c _ => ?_
  apply KeepsTables.ite
  · exact makeCqEntryResults_keeps rfl rfl _ _ _
  · exact makeCqEntryResults_keeps rfl rfl _ _ _

theorem adminGetFeatures_keeps : KeepsTables v (adminGetFeatures eid v) := by
  refine .bind fun c _ => ?_
  apply KeepsTables.ite
  · exact makeCqEntryResults_keeps rfl rfl _ _ _
  · exact makeCqEntryResults_keeps rfl rfl _ _ _

theorem tables_of_queue {f : Nat → NvmevDev} {ret : Nat}
    (h : (queueIndex cmd.qid >>= fun qid => makeCqEntry eid ret (f qid)) = .ok v') :
    v'.sqes = (f cmd.qid).sqes ∧ v'.cqes = (f cmd.qid).cqes := by
  obtain ⟨qid, hqid, h⟩ := bind_eq_ok.mp h
  obtain rfl := queueIndex_eq hqid
  exact ⟨(makeCqEntry_tables h).1, (makeCqEntry_tables h).2.1⟩

theorem procAdminReq_tables (hcmd : v.sqEntry eid = .ok cmd) (h : procAdminReq eid v = .ok v') :
    TableStep cmd v v' := by
  unfold procAdminReq at h
  rw [hcmd, ok_bind] at h
  unfold TableStep
  cases hop : adminOpcode cmd.opcode with
  | deleteSq =>
    simp only [hop, adminDeleteSq, hcmd, ok_bind] at h
    obtain ⟨hs, hc⟩ := tables_of_queue (f := fun qid => v.setSq qid none) h
    exact ⟨hc, hs⟩
  | createSq =>
    simp only [hop, adminCreateSq, hcmd, ok_bind] at h
    obtain ⟨hs, hc⟩ := tables_of_queue (f := fun qid =>
      (v.setSq qid (some (createdSq cmd.qsize cmd.cqid (v.mem.ioSq cmd.prp1)))).clearDb (qid * 2)) h
    exact ⟨hc, _, hs⟩
  | getLogPage =>
    rw [hop] at h
    exact KeepsTables.bind (fun c _ => .bind fun page _ => fill_keeps _ _ _) v' h
  | deleteCq =>
    simp only [hop, adminDeleteCq, hcmd, ok_bind] at h
    exact tables_of_queue (f := fun qid => v.setCq qid none) h
  | createCq =>
    simp only [hop, adminCreateCq, hcmd, ok_bind] at h
    obtain ⟨hs, hc⟩ := tables_of_queue (f := fun qid =>
      (v.setCq qid (some (createdCq cmd.qsize (v.mem.ioCq cmd.prp1)))).clearDb (qid * 2 + 1)) h
    exact ⟨hs, _, hc⟩
  | identify =>
    rw [hop] at h
    exact adminIdentify_keeps v' h
  | abortCmd =>
    rw [hop] at h
    cases h
    exact ⟨rfl, rfl⟩
  | setFeatures =>
    rw [hop] at h
    exact adminSetFeatures_keeps v' h
  | getFeatures =>
    rw [hop] at h
    exact adminGetFeatures_keeps v' h
  | asyncEvent =>
    rw [hop] at h
    exact makeCqEntry_keeps _ v' h
  | unhandled =>
    rw [hop] at h
    exact makeCqEntry_keeps _ v' h

/-- A request whose completion has not been posted. -/
def IoWorker.Waits (worker : IoWorker) (w : IoWork) : Prop :=
  ∃ e ∈ inFlight worker, worker.workQueue e = w ∧ w.isCompleted = false ∧ w.isInternal = false

def IoDev.Waits (io : IoDev) (w : IoWork) : Prop := ∃ turn, (io.ioWorkers turn).Waits w

structure IoWork.Continues (w₀ w : IoWork) : Prop where
  sqid : w.sqid = w₀.sqid
  cqid : w.cqid = w₀.cqid
  copied : w.isCopied = false → w₀.isCopied = false

theorem IoWork.Continues.of_data {w₀ w : IoWork} (h : w.data = w₀.data) : w₀.Continues w where
  sqid := by
    have hs : w.data.sqid = w₀.data.sqid := by rw [h]
    exact hs
  cqid := by
    have hc : w.data.cqid = w₀.data.cqid := by rw [h]
    exact hc
  copied := fun hw => (IoWork.data_congr h).2.2.symm.trans hw

theorem IoWork.Continues.of_load {w₀ w : IoWork} (h : w.load = w₀.load)
    (hcopied : w.isCopied = false → w₀.isCopied = false) : w₀.Continues w where
  sqid := by
    have hs : w.load.sqid = w₀.load.sqid := by rw [h]
    exact hs
  cqid := by
    have hc : w.load.cqid = w₀.load.cqid := by rw [h]
    exact hc
  copied := hcopied

theorem IoWork.isInternal_congr {w w' : IoWork} (h : w'.data = w.data) : w'.isInternal = w.isInternal :=
  (IoWork.data_congr h).2.1

/-- A cursor that goes along a worker's links while entries come and go. -/
def Tracked (worker : IoWorker) (curr : Nat) : Prop :=
  ∃ s fresh used io, TraceOk s fresh used io ∧ s.worker = worker ∧ s.curr = curr

variable {worker worker' : IoWorker} {curr : Nat}

theorem Tracked.init : Tracked initWorker noEntry := ⟨Trace.init, _, _, _, init_traceOk, rfl, rfl⟩

theorem Tracked.lists (h : Tracked worker curr) : ∃ free io, Lists worker free io := by
  obtain ⟨s, fresh, used, io, k, rfl, -⟩ := h
  exact ⟨_, _, k.lists⟩

theorem Tracked.place (h : Tracked worker curr) (c : WorkCall)
    (hp : placeEntry worker c.fill c.nsecsTarget = .ok (some worker')) : Tracked worker' curr := by
  obtain ⟨s, fresh, used, io, k, rfl, rfl⟩ := h
  obtain ⟨fresh', used', io', k'⟩ := k.place c hp
  exact ⟨s.placed c worker', fresh', used', io', k', rfl, rfl⟩

theorem Tracked.reclaim (h : Tracked worker curr) (hr : reclaimWorker worker = .ok worker') :
    Tracked worker' curr := by
  obtain ⟨s, fresh, used, io, k, rfl, rfl⟩ := h
  obtain ⟨used', left, k'⟩ := k.reclaim hr
  exact ⟨s.reclaim worker', fresh, used', left, k', rfl, rfl⟩

theorem Tracked.start (h : Tracked worker curr) : Tracked worker worker.ioSeq := by
  obtain ⟨s, fresh, used, io, k, rfl, rfl⟩ := h
  exact ⟨_, fresh, used, io, k.start, rfl, rfl⟩

theorem Tracked.turn (h : Tracked worker curr) (hc : curr ≠ noEntry) (now : Nat) :
    Tracked (workerTurn worker curr now).1 (workerTurn worker curr now).2.1 := by
  obtain ⟨s, fresh, used, io, k, rfl, rfl⟩ := h
  exact ⟨s.turn now, fresh, used, io, k.turn hc now, rfl, rfl⟩

theorem Tracked.waits (h : Tracked worker curr) (hc : curr ≠ noEntry)
    (hopen : (worker.workQueue curr).isCompleted = false)
    (hext : (worker.workQueue curr).isInternal = false) : worker.Waits (worker.workQueue curr) := by
  obtain ⟨s, fresh, used, io, k, rfl, rfl⟩ := h
  refine ⟨s.curr, ?_, rfl, hopen, hext⟩
  rw [k.lists.inFlight_eq]
  rcases List.mem_append.mp (k.cursor.resolve_left hc) with hu | hio
  · exact absurd ((k.usedDone _ hu).symm.trans hopen) (by simp)
  · exact hio

theorem waits_place {free io : List Nat} (k : Lists worker free io) {fill : IoWork → IoWork} {t : Nat}
    (hfill : Unlinks fill) (hp : placeEntry worker fill t = .ok (some worker')) {w : IoWork}
    (h : worker'.Waits w) :
    (∃ w₀, w.data = (fill w₀).data) ∨ ∃ w₀, worker.Waits w₀ ∧ w₀.Continues w := by
  rcases placeEntry_spec k hfill t with ⟨-, hn⟩ | ⟨-, e, worker₁, free', io', h₁, placed⟩
  · rw [hp] at hn
    cases hn
  · rw [hp] at h₁
    obtain rfl := Option.some.inj (Except.ok.inj h₁)
    obtain ⟨i, hi, rfl, hopen, hext⟩ := h
    by_cases hie : i = e
    · subst hie
      exact Or.inl ⟨_, placed.entry⟩
    · have hd := placed.others i hie
      refine Or.inr ⟨worker.workQueue i, ⟨i, ?_, rfl, ?_, ?_⟩, .of_data hd⟩
      · rw [placed.lists.inFlight_eq] at hi
        rw [k.inFlight_eq]
        exact (List.mem_cons.mp (placed.io.mem_iff.mp hi)).resolve_left hie
      · rwa [IoWork.isCompleted_congr hd] at hopen
      · rwa [IoWork.isInternal_congr hd] at hext

theorem waits_reclaim {free io : List Nat} (k : Lists worker free io)
    (hr : reclaimWorker worker = .ok worker') {w : IoWork} (h : worker'.Waits w) :
    ∃ w₀, worker.Waits w₀ ∧ w₀.Continues w := by
  obtain ⟨worker₁, done, left, h₁, hio, r⟩ := reclaimWorker_spec k
  obtain rfl := Except.ok.inj (hr.symm.trans h₁)
  obtain ⟨i, hi, rfl, hopen, hext⟩ := h
  refine ⟨worker.workQueue i, ⟨i, ?_, rfl, ?_, ?_⟩, .of_data (r.data i)⟩
  · rw [r.lists.inFlight_eq] at hi
    rw [k.inFlight_eq, hio]
    exact List.mem_append_right done hi
  · rwa [IoWork.isCompleted_congr (r.data i)] at hopen
  · rwa [IoWork.isInternal_congr (r.data i)] at hext

theorem workerTurn_open {curr now i : Nat}
    (h : ((workerTurn worker curr now).1.workQueue i).isCompleted = false) :
    (worker.workQueue i).isCompleted = false := by
  have t := workerTurn_turned worker curr now
  by_cases hi : i = curr
  · subst hi
    cases hc : (worker.workQueue i).isCompleted with
    | false => rfl
    | true =>
      rw [workerTurn_skip hc] at h
      exact hc.symm.trans h
  · rwa [t.others i hi] at h

theorem workerTurn_uncopied {curr now i : Nat}
    (h : ((workerTurn worker curr now).1.workQueue i).isCopied = false) :
    (worker.workQueue i).isCopied = false := by
  have t := workerTurn_turned worker curr now
  by_cases hi : i = curr
  · subst hi
    exact (workerTurn_copied h).1
  · rwa [t.others i hi] at h

theorem waits_turn {free io : List Nat} (k : Lists worker free io) (curr now : Nat) {w : IoWork}
    (h : (workerTurn worker curr now).1.Waits w) : ∃ w₀, worker.Waits w₀ ∧ w₀.Continues w := by
  have t := workerTurn_turned worker curr now
  obtain ⟨i, hi, rfl, hopen, hext⟩ := h
  have hl := t.load i
  refine ⟨worker.workQueue i, ⟨i, ?_, rfl, workerTurn_open hopen, ?_⟩, ?_⟩
  · rw [(t.lists free io k).inFlight_eq] at hi
    rw [k.inFlight_eq]
    exact hi
  · rwa [(IoWork.load_fields hl).2] at hext
  · exact .of_load hl workerTurn_uncopied

/-- A completion is posted for an entry that is neither completed nor internal. -/
theorem workerTurn_fillCqResult {curr now : Nat} {w : IoWork}
    (h : .fillCqResult w ∈ (workerTurn worker curr now).2.2) :
    (worker.workQueue curr).isCompleted = false ∧ (worker.workQueue curr).isInternal = false ∧
    w.cqid = (worker.workQueue curr).cqid := by
  have hcopy : .fillCqResult w ∉ copyActions (worker.workQueue curr) := by
    unfold copyActions
    split
    · exact List.not_mem_nil
    · exact fun hm => by cases List.mem_singleton.mp hm
  cases hc : (worker.workQueue curr).isCompleted with
  | true =>
    rw [workerTurn_skip hc] at h
    exact absurd h List.not_mem_nil
  | false =>
    refine ⟨rfl, ?_⟩
    rcases Nat.lt_or_ge now (worker.workQueue curr).nsecsTarget with ht | ht
    · rw [workerTurn_wait hc ht] at h
      exact absurd h hcopy
    · rw [workerTurn_finish hc ht] at h
      have hf := List.mem_singleton.mp ((List.mem_append.mp h).resolve_left hcopy)
      unfold finishOf at hf
      split at hf
      · cases hf
      · rename_i hint
        injection hf with hw
        subst hw
        exact ⟨by simpa using hint, rfl⟩

structure QueueLife where
  adm : NvmevDev
  io : IoDev
  curr : Nat → Nat

structure SameQueues (v v' : NvmevDev) : Prop where
  sqs : ∀ qid, (v'.sqes qid).map SubmissionQueue.cqid = (v.sqes qid).map SubmissionQueue.cqid
  cqs : ∀ qid, (v'.cqes qid).isSome = (v.cqes qid).isSome

/-- A pointer out of a table, about to be dereferenced. -/
def deref {α : Type} : Option α → Except Fault α
  | none => .error .badAddress
  | some a => .ok a

/-- The lookups of a worker, and the entry it posts. The data are copied elsewhere. -/
def WorkerAction.perform (action : WorkerAction) (v : NvmevDev) : Except Fault NvmevDev :=
  match action with
  | .performIo sqid _ => do
    let _ ← deref (v.sqes sqid)
    return v
  | .fillCqResult w => do
    let cq ← deref (v.cqes w.cqid)
    return v.setCq w.cqid (some (NVMeVirt.fillCqResult cq w))
  | .bufferRelease _ _ => .ok v

def performAll : List WorkerAction → NvmevDev → Except Fault NvmevDev
  | [], v => .ok v
  | action :: rest, v => do
    let v ← action.perform v
    performAll rest v

def IoDev.setWorker (io : IoDev) (turn : Nat) (worker : IoWorker) : IoDev :=
  { io with ioWorkers := Function.update io.ioWorkers turn worker }

/-- What the host may ask for: admin commands, and requests of a submission queue. -/
structure QueueRules where
  admin : QueueLife → NvmeAdminCommand → Prop
  dispatch : QueueLife → SubmissionQueue → Prop

/-- The dispatcher and the workers in any order. `update` is the host writing its memory, or the
dispatcher its counters; `start` is a worker reading `io_seq` again. -/
inductive LifeStep (rules : QueueRules) : QueueLife → QueueLife → Prop where
  | update {s : QueueLife} {adm' : NvmevDev} (h : SameQueues s.adm adm') :
      LifeStep rules s { s with adm := adm' }
  | admin {s : QueueLife} {eid : Nat} {cmd : NvmeAdminCommand} {adm' : NvmevDev}
      (hcmd : s.adm.sqEntry eid = .ok cmd) (hr : rules.admin s cmd)
      (h : procAdminReq eid s.adm = .ok adm') : LifeStep rules s { s with adm := adm' }
  | enqueue {s : QueueLife} {sqid : Nat} {sq : SubmissionQueue} {io' : IoDev}
      (hsq : s.adm.sqes sqid = some sq) (hr : rules.dispatch s sq)
      (sqEntry commandId nsecsStart now : Nat) (ret : NvmevResult)
      (h : enqueueIoReq s.io sqid sq.cqid sqEntry commandId nsecsStart now ret = .ok io') :
      LifeStep rules s { s with io := io' }
  | schedule {s : QueueLife} {io' : IoDev} (sqid nsecsTarget writeBuffer buffsToRelease now : Nat)
      (h : scheduleInternalOperation s.io sqid nsecsTarget writeBuffer buffsToRelease now = .ok io') :
      LifeStep rules s { s with io := io' }
  | reclaim {s : QueueLife} {turn : Nat} {worker' : IoWorker}
      (h : reclaimWorker (s.io.ioWorkers turn) = .ok worker') :
      LifeStep rules s { s with io := s.io.setWorker turn worker' }
  | start {s : QueueLife} {turn : Nat} (h : s.curr turn = noEntry) :
      LifeStep rules s { s with curr := Function.update s.curr turn (s.io.ioWorkers turn).ioSeq }
  | turn {s : QueueLife} {turn now : Nat} {adm' : NvmevDev} (hc : s.curr turn ≠ noEntry)
      (h : performAll (workerTurn (s.io.ioWorkers turn) (s.curr turn) now).2.2 s.adm = .ok adm') :
      LifeStep rules s ⟨adm', s.io.setWorker turn (workerTurn (s.io.ioWorkers turn) (s.curr turn) now).1,
        Function.update s.curr turn (workerTurn (s.io.ioWorkers turn) (s.curr turn) now).2.1⟩

abbrev LifeRun (rules : QueueRules) : QueueLife → QueueLife → Prop := Relation.ReflTransGen (LifeStep rules)

/-- The device after `NVMEV_INIT` with its I/O queues still to be created. -/
def QueueLife.init (adm : NvmevDev) (nrIoWorkers : Nat) : QueueLife :=
  ⟨{ adm with sqes := fun _ => none, cqes := fun _ => none }, nvmevIoWorkerInit nrIoWorkers, fun _ => noEntry⟩

def LifeReachable (rules : QueueRules) (s : QueueLife) : Prop :=
  ∃ adm nrIoWorkers, LifeRun rules (QueueLife.init adm nrIoWorkers) s

def WorkerAction.FindsQueue (v : NvmevDev) : WorkerAction → Prop
  | .performIo sqid _ => (v.sqes sqid).isSome
  | .fillCqResult w => (v.cqes w.cqid).isSome
  | .bufferRelease _ _ => True

/-- Whichever worker has its turn next, it does not use a missing queue. -/
def QueueLife.FindsQueues (s : QueueLife) : Prop :=
  ∀ turn now, s.curr turn ≠ noEntry →
    ∀ action ∈ (workerTurn (s.io.ioWorkers turn) (s.curr turn) now).2.2, action.FindsQueue s.adm

/-- The host may ask for anything. -/
def QueueRules.any : QueueRules := ⟨fun _ _ => True, fun _ _ => True⟩

/-- The host deletes a submission queue when its requests have been copied, a completion queue when
the requests that it is for have been completed, and rings for a submission queue when its
completion queue exists. -/
def QueueRules.drained : QueueRules where
  admin s cmd :=
    (adminOpcode cmd.opcode = .deleteSq → ∀ w, s.io.Waits w → w.isCopied = false → w.sqid ≠ cmd.qid) ∧
    (adminOpcode cmd.opcode = .deleteCq → ∀ w, s.io.Waits w → w.cqid ≠ cmd.qid)
  dispatch s sq := (s.adm.cqes sq.cqid).isSome

variable {s s' : QueueLife} {rules : QueueRules}

theorem SameQueues.refl (v : NvmevDev) : SameQueues v v := ⟨fun _ => rfl, fun _ => rfl⟩

theorem SameQueues.trans {w : NvmevDev} (h : SameQueues v w) (h' : SameQueues w v') : SameQueues v v' :=
  ⟨fun qid => (h'.sqs qid).trans (h.sqs qid), fun qid => (h'.cqs qid).trans (h.cqs qid)⟩

theorem SameQueues.sqes_isSome (h : SameQueues v v') (qid : Nat) :
    (v'.sqes qid).isSome = (v.sqes qid).isSome := by
  have hmap := congrArg Option.isSome (h.sqs qid)
  rwa [Option.isSome_map, Option.isSome_map] at hmap

theorem deref_eq_ok {α : Type} {x : Option α} {a : α} : deref x = .ok a ↔ x = some a := by
  cases x with
  | none => simp [deref]
  | some b => simp [deref]

theorem WorkerAction.perform_same {action : WorkerAction} (h : action.perform v = .ok v') :
    SameQueues v v' := by
  cases action with
  | performIo sqid sqEntry =>
    obtain ⟨sq, -, h⟩ := bind_eq_ok.mp h
    cases h
    exact .refl v
  | fillCqResult w =>
    obtain ⟨cq, hcq, h⟩ := bind_eq_ok.mp h
    rw [deref_eq_ok] at hcq
    cases h
    refine ⟨fun _ => rfl, fun qid => ?_⟩
    by_cases hq : qid = w.cqid
    · subst hq
      simp [NvmevDev.setCq, hcq]
    · simp [NvmevDev.setCq, hq]
  | bufferRelease writeBuffer bytes =>
    cases h
    exact .refl v

theorem performAll_same {actions : List WorkerAction} (h : performAll actions v = .ok v') :
    SameQueues v v' := by
  induction actions generalizing v with
  | nil =>
    cases h
    exact .refl _
  | cons action rest ih =>
    obtain ⟨w, hw, h⟩ := bind_eq_ok.mp h
    exact (WorkerAction.perform_same hw).trans (ih h)

/-- The requests that wait have the queues that they still need. -/
structure Supplied (s : QueueLife) : Prop where
  tracked : ∀ turn, Tracked (s.io.ioWorkers turn) (s.curr turn)
  sq : ∀ w, s.io.Waits w → w.isCopied = false → (s.adm.sqes w.sqid).isSome
  cq : ∀ w, s.io.Waits w → (s.adm.cqes w.cqid).isSome

theorem init_supplied (adm : NvmevDev) (nrIoWorkers : Nat) : Supplied (QueueLife.init adm nrIoWorkers) := by
  have hnone : ∀ w, ¬ (QueueLife.init adm nrIoWorkers).io.Waits w := by
    rintro w ⟨turn, e, he, -⟩
    have hempty : inFlight initWorker = [] := initWorker_lists.inFlight_eq
    have he' : e ∈ inFlight initWorker := he
    rw [hempty] at he'
    exact absurd he' List.not_mem_nil
  exact ⟨fun _ => .init, fun w hw => absurd hw (hnone w), fun w hw => absurd hw (hnone w)⟩

/-- The lookups that the worker makes are those of a request that waits. -/
theorem Supplied.findsQueues (k : Supplied s) : s.FindsQueues := by
  intro turn now hc action hmem
  cases action with
  | performIo sqid sqEntry =>
    obtain ⟨hopen, hcopied, hext, rfl, -⟩ := workerTurn_performIo hmem
    exact k.sq _ ⟨turn, (k.tracked turn).waits hc hopen hext⟩ hcopied
  | fillCqResult w =>
    obtain ⟨hopen, hext, hcqid⟩ := workerTurn_fillCqResult hmem
    change (s.adm.cqes w.cqid).isSome
    rw [hcqid]
    exact k.cq _ ⟨turn, (k.tracked turn).waits hc hopen hext⟩
  | bufferRelease writeBuffer bytes => trivial

/-- A step that makes no new request and takes no queue away. -/
theorem Supplied.continues (k : Supplied s)
    (tracked : ∀ turn, Tracked (s'.io.ioWorkers turn) (s'.curr turn))
    (hw : ∀ w, s'.io.Waits w → ∃ w₀, s.io.Waits w₀ ∧ w₀.Continues w)
    (hs : ∀ qid, (s'.adm.sqes qid).isSome = (s.adm.sqes qid).isSome)
    (hc : ∀ qid, (s'.adm.cqes qid).isSome = (s.adm.cqes qid).isSome) : Supplied s' := by
  refine ⟨tracked, ?_, ?_⟩
  · intro w h hcopied
    obtain ⟨w₀, h₀, c⟩ := hw w h
    rw [hs, c.sqid]
    exact k.sq w₀ h₀ (c.copied hcopied)
  · intro w h
    obtain ⟨w₀, h₀, c⟩ := hw w h
    rw [hc, c.cqid]
    exact k.cq w₀ h₀

theorem IoWork.Continues.refl (w : IoWork) : w.Continues w := ⟨rfl, rfl, id⟩

theorem Supplied.tables (k : Supplied s) {adm' : NvmevDev}
    (hs : ∀ w, s.io.Waits w → w.isCopied = false → (s.adm.sqes w.sqid).isSome → (adm'.sqes w.sqid).isSome)
    (hc : ∀ w, s.io.Waits w → (s.adm.cqes w.cqid).isSome → (adm'.cqes w.cqid).isSome) :
    Supplied { s with adm := adm' } where
  tracked := k.tracked
  sq := fun w hw hcopied => hs w hw hcopied (k.sq w hw hcopied)
  cq := fun w hw => hc w hw (k.cq w hw)

theorem isSome_update {α : Type} (f : Nat → Option α) (i : Nat) (x : Option α) {j : Nat}
    (h : (f j).isSome) (hx : j = i → x.isSome) : (Function.update f i x j).isSome := by
  by_cases hj : j = i
  · subst hj
    rw [Function.update_self]
    exact hx rfl
  · rwa [Function.update_of_ne hj]

theorem Supplied.admin (k : Supplied s) {eid : Nat} {cmd : NvmeAdminCommand} {adm' : NvmevDev}
    (hcmd : s.adm.sqEntry eid = .ok cmd) (hr : QueueRules.drained.admin s cmd)
    (h : procAdminReq eid s.adm = .ok adm') : Supplied { s with adm := adm' } := by
  have ht := procAdminReq_tables hcmd h
  unfold TableStep at ht
  split at ht
  · obtain ⟨hc, sq, hs⟩ := ht
    refine k.tables (fun w _ _ hsome => ?_) (fun w _ hsome => by rwa [hc])
    rw [hs]
    exact isSome_update _ _ _ hsome fun _ => rfl
  · rename_i hop
    refine k.tables (fun w hw hcopied hsome => ?_) (fun w _ hsome => by rwa [ht.1])
    rw [ht.2]
    exact isSome_update _ _ _ hsome fun heq => absurd heq (hr.1 hop w hw hcopied)
  · obtain ⟨hs, cq, hc⟩ := ht
    refine k.tables (fun w _ _ hsome => by rwa [hs]) (fun w _ hsome => ?_)
    rw [hc]
    exact isSome_update _ _ _ hsome fun _ => rfl
  · rename_i hop
    refine k.tables (fun w _ _ hsome => by rwa [ht.1]) (fun w hw hsome => ?_)
    rw [ht.2]
    exact isSome_update _ _ _ hsome fun heq => absurd heq (hr.2 hop w hw)
  · exact k.tables (fun w _ _ hsome => by rwa [ht.1]) (fun w _ hsome => by rwa [ht.2])

theorem tracked_set (k : Supplied s) {turn curr' : Nat} {worker' : IoWorker} (h : Tracked worker' curr')
    (i : Nat) : Tracked ((s.io.setWorker turn worker').ioWorkers i) (Function.update s.curr turn curr' i) := by
  unfold IoDev.setWorker
  by_cases hi : i = turn
  · subst hi
    simp only [Function.update_self]
    exact h
  · simp only [Function.update_of_ne hi]
    exact k.tracked i

theorem tracked_place (k : Supplied s) {turn : Nat} {worker' : IoWorker} (h : Tracked worker' (s.curr turn))
    (i : Nat) : Tracked ((s.io.setWorker turn worker').ioWorkers i) (s.curr i) := by
  have ht := @tracked_set _ k turn _ _ h i
  rwa [Function.update_eq_self] at ht

theorem waits_set {io : IoDev} {turn : Nat} {worker' : IoWorker} {w : IoWork}
    (h : (io.setWorker turn worker').Waits w) : worker'.Waits w ∨ io.Waits w := by
  obtain ⟨i, h⟩ := h
  unfold IoDev.setWorker at h
  by_cases hi : i = turn
  · subst hi
    simp only [Function.update_self] at h
    exact Or.inl h
  · simp only [Function.update_of_ne hi] at h
    exact Or.inr ⟨i, h⟩

/-- The dispatcher places work: the worker's cursor survives, and what waits is that work or has
waited before. -/
theorem Supplied.place (k : Supplied s) (c : WorkCall) {io' : IoDev} (h : c.run s.io = .ok io') :
    (∀ turn, Tracked (io'.ioWorkers turn) (s.curr turn)) ∧ ∀ w, io'.Waits w →
      (∃ w₀, w.data = (c.fill w₀).data ∧ w.isInternal = false) ∨ ∃ w₀, s.io.Waits w₀ ∧ w₀.Continues w := by
  rw [c.run_eq] at h
  rcases placeWork_cases h with rfl | ⟨turn, worker', -, hp, rfl⟩
  · exact ⟨k.tracked, fun w hw => Or.inr ⟨w, hw, .refl w⟩⟩
  · refine ⟨tracked_place k ((k.tracked turn).place c hp), fun w hw => ?_⟩
    have hw' : (s.io.setWorker turn worker').Waits w := hw
    rcases waits_set hw' with hself | hold
    · obtain ⟨free, io, lists⟩ := (k.tracked turn).lists
      have hext : w.isInternal = false := by
        obtain ⟨_, _, _, _, hext⟩ := hself
        exact hext
      rcases waits_place lists c.unlinks hp hself with ⟨w₀, hdata⟩ | ⟨w₀, hw₀, hc⟩
      · exact Or.inl ⟨w₀, hdata, hext⟩
      · exact Or.inr ⟨w₀, ⟨turn, hw₀⟩, hc⟩
    · exact Or.inr ⟨w, hold, .refl w⟩

theorem Supplied.enqueue (k : Supplied s) {sqid : Nat} {sq : SubmissionQueue} {io' : IoDev}
    (hsq : s.adm.sqes sqid = some sq) (hcq : (s.adm.cqes sq.cqid).isSome)
    {sqEntry commandId nsecsStart now : Nat} {ret : NvmevResult}
    (h : enqueueIoReq s.io sqid sq.cqid sqEntry commandId nsecsStart now ret = .ok io') :
    Supplied { s with io := io' } := by
  obtain ⟨tracked, hw⟩ := k.place (.enqueueIoReq sqid sq.cqid sqEntry commandId nsecsStart now ret) h
  refine ⟨tracked, ?_, ?_⟩
  · intro w hwait hcopied
    rcases hw w hwait with ⟨w₀, hdata, -⟩ | ⟨w₀, h₀, c⟩
    · have hid : w.sqid = sqid := (IoWork.Continues.of_data hdata).sqid
      rw [hid, hsq]
      rfl
    · rw [c.sqid]
      exact k.sq w₀ h₀ (c.copied hcopied)
  · intro w hwait
    rcases hw w hwait with ⟨w₀, hdata, -⟩ | ⟨w₀, h₀, c⟩
    · have hid : w.cqid = sq.cqid := (IoWork.Continues.of_data hdata).cqid
      rw [hid]
      exact hcq
    · rw [c.cqid]
      exact k.cq w₀ h₀

theorem Supplied.schedule (k : Supplied s) {io' : IoDev}
    {sqid nsecsTarget writeBuffer buffsToRelease now : Nat}
    (h : scheduleInternalOperation s.io sqid nsecsTarget writeBuffer buffsToRelease now = .ok io') :
    Supplied { s with io := io' } := by
  obtain ⟨tracked, hw⟩ := k.place (.scheduleInternalOperation sqid nsecsTarget writeBuffer buffsToRelease
    now) h
  refine k.continues tracked (fun w hwait => ?_) (fun _ => rfl) (fun _ => rfl)
  -- the new entry is internal
  rcases hw w hwait with ⟨w₀, hdata, hext⟩ | hold
  · exact absurd ((IoWork.isInternal_congr hdata).symm.trans hext) Bool.noConfusion
  · exact hold

theorem Supplied.reclaim (k : Supplied s) {turn : Nat} {worker' : IoWorker}
    (h : reclaimWorker (s.io.ioWorkers turn) = .ok worker') :
    Supplied { s with io := s.io.setWorker turn worker' } := by
  refine k.continues (tracked_place k ((k.tracked turn).reclaim h)) (fun w hwait => ?_) (fun _ => rfl)
    (fun _ => rfl)
  rcases waits_set hwait with hself | hold
  · obtain ⟨free, io, lists⟩ := (k.tracked turn).lists
    obtain ⟨w₀, hw₀, c⟩ := waits_reclaim lists h hself
    exact ⟨w₀, ⟨turn, hw₀⟩, c⟩
  · exact ⟨w, hold, .refl w⟩

theorem Supplied.start (k : Supplied s) (turn : Nat) :
    Supplied { s with curr := Function.update s.curr turn (s.io.ioWorkers turn).ioSeq } := by
  refine k.continues (fun i => ?_) (fun w hwait => ⟨w, hwait, .refl w⟩) (fun _ => rfl) (fun _ => rfl)
  dsimp only
  by_cases hi : i = turn
  · subst hi
    rw [Function.update_self]
    exact (k.tracked i).start
  · rw [Function.update_of_ne hi]
    exact k.tracked i

theorem Supplied.turn (k : Supplied s) {turn now : Nat} {adm' : NvmevDev} (hc : s.curr turn ≠ noEntry)
    (h : performAll (workerTurn (s.io.ioWorkers turn) (s.curr turn) now).2.2 s.adm = .ok adm') :
    Supplied ⟨adm', s.io.setWorker turn (workerTurn (s.io.ioWorkers turn) (s.curr turn) now).1,
      Function.update s.curr turn (workerTurn (s.io.ioWorkers turn) (s.curr turn) now).2.1⟩ := by
  have same := performAll_same h
  refine k.continues (tracked_set k ((k.tracked turn).turn hc now)) (fun w hwait => ?_) same.sqes_isSome
    same.cqs
  rcases waits_set hwait with hself | hold
  · obtain ⟨free, io, lists⟩ := (k.tracked turn).lists
    obtain ⟨w₀, hw₀, c⟩ := waits_turn lists _ now hself
    exact ⟨w₀, ⟨turn, hw₀⟩, c⟩
  · exact ⟨w, hold, .refl w⟩

theorem Supplied.step (k : Supplied s) (h : LifeStep .drained s s') : Supplied s' := by
  cases h with
  | update same =>
    exact k.tables (fun w _ _ hsome => by rwa [same.sqes_isSome]) (fun w _ hsome => by rwa [same.cqs])
  | admin hcmd hr h => exact k.admin hcmd hr h
  | enqueue hsq hr sqEntry commandId nsecsStart now ret h => exact k.enqueue hsq hr h
  | schedule sqid nsecsTarget writeBuffer buffsToRelease now h => exact k.schedule h
  | reclaim h => exact k.reclaim h
  | start h => exact k.start _
  | turn hc h => exact k.turn hc h

theorem LifeRun.supplied (k : Supplied s) (h : LifeRun .drained s s') : Supplied s' := by
  induction h with
  | refl => exact k
  | tail _ hstep ih => exact ih.step hstep

/-- Completion queue 1, submission queue 1, and the latter's deletion. -/
def createThenDelete : Nat → NvmeAdminCommand
  | 0 => ⟨0x05, 3, 0, 0x4000, 0x10001, 0⟩
  | 1 => ⟨0x01, 4, 0, 0x5000, 0x10001, 0x10000⟩
  | _ => ⟨0x00, 5, 0, 0, 1, 0⟩

def lifeDev : NvmevDev :=
  let v := adminDev ⟨true, 4, 4, 0, some ⟨0, 1⟩, some ⟨1, 1⟩⟩ (createThenDelete 0)
  { v with mem := { v.mem with adminSq := fun _ => createThenDelete } }

/-- A request of queue 1 is dispatched, the queue is deleted, and then the worker has its turn. -/
theorem deleted_queue_copied : ∃ s : QueueLife, LifeReachable .any s ∧ ¬ s.FindsQueues := by
  have h₁ : LifeRun .any (QueueLife.init lifeDev 1) _ := .single (@LifeStep.admin _ _ 0 _ _ rfl trivial rfl)
  have h₂ : LifeRun .any (QueueLife.init lifeDev 1) _ := .tail h₁ (@LifeStep.admin _ _ 1 _ _ rfl trivial rfl)
  have h₃ : LifeRun .any (QueueLife.init lifeDev 1) _ :=
    .tail h₂ (@LifeStep.enqueue _ _ 1 _ _ rfl trivial 0 7 0 0 ⟨0, 100⟩ rfl)
  have h₄ : LifeRun .any (QueueLife.init lifeDev 1) _ := .tail h₃ (@LifeStep.admin _ _ 2 _ _ rfl trivial rfl)
  have h₅ : LifeRun .any (QueueLife.init lifeDev 1) _ := .tail h₄ (@LifeStep.start _ _ 0 rfl)
  refine ⟨_, ⟨lifeDev, 1, h₅⟩, ?_⟩
  intro h
  exact Bool.false_ne_true (h 0 0 (by decide) (.performIo 1 0) (by decide))

/-- Where the host drains a queue before it deletes it, every lookup of a worker finds a queue. -/
theorem drained_finds_queues {s : QueueLife} (h : LifeReachable .drained s) : s.FindsQueues := by
  obtain ⟨adm, nrIoWorkers, hrun⟩ := h
  exact (LifeRun.supplied (init_supplied adm nrIoWorkers) hrun).findsQueues

/-- The request of queue 1, dispatched after both queues have been created, is copied from it. -/
theorem drained_finds_queues_created : ∃ s : QueueLife, LifeReachable .drained s ∧ s.curr 0 ≠ noEntry ∧
    .performIo 1 0 ∈ (workerTurn (s.io.ioWorkers 0) (s.curr 0) 0).2.2 ∧ s.FindsQueues := by
  have hcreate : ∀ s, QueueRules.drained.admin s (createThenDelete 0) ∧
      QueueRules.drained.admin s (createThenDelete 1) := by
    intro s
    refine ⟨⟨fun h => ?_, fun h => ?_⟩, ⟨fun h => ?_, fun h => ?_⟩⟩
    all_goals exact absurd h (by decide)
  have h₁ : LifeRun .drained (QueueLife.init lifeDev 1) _ :=
    .single (@LifeStep.admin _ _ 0 _ _ rfl (hcreate _).1 rfl)
  have h₂ : LifeRun .drained (QueueLife.init lifeDev 1) _ :=
    .tail h₁ (@LifeStep.admin _ _ 1 _ _ rfl (hcreate _).2 rfl)
  have h₃ : LifeRun .drained (QueueLife.init lifeDev 1) _ :=
    .tail h₂ (@LifeStep.enqueue _ _ 1 _ _ rfl rfl 0 7 0 0 ⟨0, 100⟩ rfl)
  have h₄ : LifeReachable .drained _ := ⟨lifeDev, 1, .tail h₃ (@LifeStep.start _ _ 0 rfl)⟩
  exact ⟨_, h₄, by decide, by decide, drained_finds_queues h₄⟩

end NVMeVirt
