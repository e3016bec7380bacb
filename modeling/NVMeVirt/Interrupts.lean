import NVMeVirt.CompletionRace
import NVMeVirt.IoRun
import NVMeVirt.Lib.Notify

/-!
# Interrupts

The second half of `nvmev_io_worker`: the pass over the completion queues that signals those with
`interrupt_ready`. Every worker runs it after each pass over its list, side by side with workers that
post completions in `__fill_cq_result`. One turn here is the code between two accesses that another
worker can see.
-/

namespace NVMeVirt
set_option autoImplicit false

inductive IrqSignal where
  | msi (msiIndex : Nat)
  | int
  deriving Repr, DecidableEq

/-- What the host writes through the configuration space, and the interrupt status bit. -/
structure PciIrq where
  msixEnabled : Bool
  intxDisabled : Bool
  stsIs : Bool
  deriving Repr, DecidableEq

def nvmevSignalIrq (pci : PciIrq) (msiIndex : Nat) : PciIrq × IrqSignal :=
  if pci.msixEnabled then (pci, .msi msiIndex) else ({ pci with stsIs := true }, .int)

/-- A completion queue with what the interrupt code reads. -/
structure IrqQueue where
  posting : Posting
  irqEnabled : Bool
  irqVector : Nat
  irqLock : Option Nat

/-- Inside the section of `irq_lock`. -/
inductive IrqSection where
  | locked
  | seen
  | cleared
  | leaving
  deriving Repr, DecidableEq

/-- Where a worker is: with its list, at the head of the `for` loop, or in the section of a queue. -/
inductive WorkerPc where
  | work
  | scan (qidx : Nat)
  | inside (qidx : Nat) (sec : IrqSection)
  deriving Repr, DecidableEq

inductive IrqEvent where
  | posted (qidx : Nat)
  | signalled (qidx : Nat) (irq : IrqSignal)
  deriving Repr, DecidableEq

/-- `dev` for the number of workers; `bySq` is `CONFIG_NVMEV_IO_WORKER_BY_SQ`. -/
structure IrqConfig where
  dev : IoDev
  bySq : Bool

structure IrqSystem where
  cqes : Nat → Option IrqQueue
  nrCq : Nat
  pc : Nat → WorkerPc
  pci : PciIrq
  log : List IrqEvent

namespace IrqSystem

def goto (s : IrqSystem) (worker : Nat) (pc : WorkerPc) : IrqSystem :=
  { s with pc := Function.update s.pc worker pc }

def setCq (s : IrqSystem) (qidx : Nat) (cq : IrqQueue) : IrqSystem :=
  { s with cqes := Function.update s.cqes qidx (some cq) }

end IrqSystem

def IrqConfig.serves (cfg : IrqConfig) (worker qidx : Nat) : Bool :=
  !cfg.bySq || worker == workerOf cfg.dev qidx

/-- The queue that `__nvmev_admin_create_cq` makes, with `NVME_CQ_IRQ_ENABLED` in bit 1 of the flags. -/
def createdIrqQueue (qsize cqFlags irqVector : Nat) (slots : Nat → NvmeCompletion) : IrqQueue where
  posting := { cq := createdCq qsize slots, picked := fun _ => none }
  irqEnabled := cqFlags.testBit 1
  irqVector := if cqFlags.testBit 1 then irqVector else 0
  irqLock := none

def IrqQueue.setReady (cq : IrqQueue) (ready : Bool) : IrqQueue :=
  { cq with posting := { cq.posting with cq := { cq.posting.cq with interruptReady := ready } } }

/-- One turn of a worker outside of its list. A queue that is gone when the lock is held, as
`nvmev_vdev->cqes` cannot be in the runs below, ends the section. -/
def irqTurn (cfg : IrqConfig) (s : IrqSystem) (worker : Nat) : IrqSystem :=
  match s.pc worker with
  | .work => s
  | .scan qidx =>
    if s.nrCq < qidx then s.goto worker .work
    else if cfg.serves worker qidx then
      match s.cqes qidx with
      | none => s.goto worker (.scan (qidx + 1))
      | some cq =>
        if cq.irqEnabled then
          -- spin_trylock
          match cq.irqLock with
          | some _ => s.goto worker (.scan (qidx + 1))
          | none => (s.setCq qidx { cq with irqLock := some worker }).goto worker (.inside qidx .locked)
        else s.goto worker (.scan (qidx + 1))
    else s.goto worker (.scan (qidx + 1))
  | .inside qidx sec =>
    match s.cqes qidx with
    | none => s.goto worker (.scan (qidx + 1))
    | some cq =>
      match sec with
      | .locked => s.goto worker (.inside qidx (if cq.posting.cq.interruptReady then .seen else .leaving))
      | .seen => (s.setCq qidx (cq.setReady false)).goto worker (.inside qidx .cleared)
      | .cleared =>
        let (pci, irq) := nvmevSignalIrq s.pci cq.irqVector
        let s : IrqSystem := { s with pci := pci, log := s.log ++ [.signalled qidx irq] }
        s.goto worker (.inside qidx .leaving)
      | .leaving => (s.setCq qidx { cq with irqLock := none }).goto worker (.scan (qidx + 1))

/-- The worker is not between the two halves of `__fill_cq_result`. -/
def IrqSystem.NotPosting (s : IrqSystem) (worker : Nat) : Prop :=
  ∀ qidx cq, s.cqes qidx = some cq → cq.posting.picked worker = none

/-- A step of any worker, of the dispatcher (a new queue, Number of Queues), or of the host, which writes
to the configuration space. No queue is deleted. -/
inductive IrqStep (cfg : IrqConfig) : IrqSystem → IrqSystem → Prop where
  | create {s : IrqSystem} {qidx : Nat} (qsize cqFlags irqVector : Nat) (slots : Nat → NvmeCompletion)
      (hcq : s.cqes qidx = none) :
      IrqStep cfg s (s.setCq qidx (createdIrqQueue qsize cqFlags irqVector slots))
  | setNrCq {s : IrqSystem} (nrCq : Nat) : IrqStep cfg s { s with nrCq := nrCq }
  | pick {s : IrqSystem} {worker qidx : Nat} {cq : IrqQueue} (w : IoWork) (hpc : s.pc worker = .work)
      (hcq : s.cqes qidx = some cq) (hn : s.NotPosting worker) :
      IrqStep cfg s (s.setCq qidx { cq with posting := cq.posting.pick worker w })
  | fill {s : IrqSystem} {worker qidx slot : Nat} {cq : IrqQueue} {w : IoWork}
      (hcq : s.cqes qidx = some cq) (hp : cq.posting.picked worker = some (slot, w)) :
      IrqStep cfg s { s.setCq qidx { cq with posting := cq.posting.fill worker slot w } with
        log := s.log ++ [.posted qidx] }
  | pass {s : IrqSystem} {worker : Nat} (hpc : s.pc worker = .work) (hn : s.NotPosting worker) :
      IrqStep cfg s (s.goto worker (.scan 1))
  | turn {s : IrqSystem} (worker : Nat) : IrqStep cfg s (irqTurn cfg s worker)
  | pciWrite {s : IrqSystem} (pci : PciIrq) : IrqStep cfg s { s with pci := pci }

structure IrqInitial (s : IrqSystem) : Prop where
  cqes : ∀ qidx, s.cqes qidx = none
  work : ∀ worker, s.pc worker = .work
  log : s.log = []

inductive IrqReachable (cfg : IrqConfig) : IrqSystem → Prop where
  | init {s : IrqSystem} (h : IrqInitial s) : IrqReachable cfg s
  | step {s s' : IrqSystem} (hr : IrqReachable cfg s) (h : IrqStep cfg s s') : IrqReachable cfg s'

def IrqSection.stage : IrqSection → Notify.Stage
  | .locked => .locked
  | .seen => .seen
  | .cleared => .cleared
  | .leaving => .leaving

def irqStage (qidx : Nat) : WorkerPc → Notify.Stage
  | .work => .away
  | .scan _ => .away
  | .inside q sec => if q = qidx then sec.stage else .away

/-- What has been posted since the last signal. -/
def unsignalled (qidx : Nat) (log : List IrqEvent) : Nat :=
  log.foldl (fun n e => match e with
    | .posted q => if q = qidx then n + 1 else n
    | .signalled q _ => if q = qidx then 0 else n) 0

def IrqEvent.isSignal (qidx : Nat) : IrqEvent → Bool
  | .posted _ => false
  | .signalled q _ => q == qidx

def postedCount (qidx : Nat) (log : List IrqEvent) : Nat := log.count (.posted qidx)

def signalCount (qidx : Nat) (log : List IrqEvent) : Nat := log.countP (IrqEvent.isSignal qidx)

def irqView (qidx : Nat) (s : IrqSystem) : Notify.State Nat where
  flag := (s.cqes qidx).elim false (fun cq => cq.posting.cq.interruptReady)
  lock := (s.cqes qidx).bind IrqQueue.irqLock
  stage worker := irqStage qidx (s.pc worker)
  posted := postedCount qidx s.log
  fresh := unsignalled qidx s.log
  told := signalCount qidx s.log

variable {cfg : IrqConfig} {s s' : IrqSystem} {worker qidx q : Nat} {cq : IrqQueue}

theorem goto_pc (pc : WorkerPc) : (s.goto worker pc).pc worker = pc := Function.update_self _ _ _

theorem setCq_cqes : (s.setCq qidx cq).cqes qidx = some cq := Function.update_self _ _ _

theorem setCq_cqes_other (h : q ≠ qidx) : (s.setCq qidx cq).cqes q = s.cqes q := Function.update_of_ne h _ _

theorem irqView_goto (s : IrqSystem) (worker : Nat) (pc : WorkerPc) :
    irqView q (s.goto worker pc) = (irqView q s).goto worker (irqStage q pc) := by
  have hst : (fun w => irqStage q ((s.goto worker pc).pc w)) =
      Function.update (fun w => irqStage q (s.pc w)) worker (irqStage q pc) := by
    funext w
    change irqStage q (Function.update s.pc worker pc w) = _
    by_cases hw : w = worker
    · rw [hw, Function.update_self, Function.update_self]
    · rw [Function.update_of_ne hw, Function.update_of_ne hw]
  unfold irqView Notify.State.goto
  dsimp only
  rw [hst]
  rfl

theorem irqView_setCq_self (s : IrqSystem) (qidx : Nat) (cq : IrqQueue) :
    irqView qidx (s.setCq qidx cq) =
      { irqView qidx s with flag := cq.posting.cq.interruptReady, lock := cq.irqLock } := by
  unfold irqView IrqSystem.setCq
  dsimp only
  rw [Function.update_self]
  rfl

theorem irqView_setCq_other (s : IrqSystem) (cq : IrqQueue) (h : q ≠ qidx) :
    irqView q (s.setCq qidx cq) = irqView q s := by
  unfold irqView IrqSystem.setCq
  dsimp only
  rw [Function.update_of_ne h]

theorem irqView_queue (h : s.cqes q = some cq) :
    (irqView q s).flag = cq.posting.cq.interruptReady ∧ (irqView q s).lock = cq.irqLock := by
  unfold irqView
  rw [h]
  exact ⟨rfl, rfl⟩

theorem irqView_goto_away {pc : WorkerPc} (h : irqStage q (s.pc worker) = .away)
    (h' : irqStage q pc = .away) :
    irqView q (s.goto worker pc) = irqView q s := by
  rw [irqView_goto, h']
  exact Notify.goto_self h

theorem irqStage_other {sec : IrqSection} (h : q ≠ qidx) : irqStage q (.inside qidx sec) = .away :=
  if_neg (Ne.symm h)

theorem irqStage_self (sec : IrqSection) : irqStage qidx (.inside qidx sec) = sec.stage := if_pos rfl

theorem unsignalled_posted (log : List IrqEvent) (qidx : Nat) :
    unsignalled q (log ++ [.posted qidx]) =
      if qidx = q then unsignalled q log + 1 else unsignalled q log := by
  unfold unsignalled
  rw [List.foldl_append]
  rfl

theorem unsignalled_signalled (log : List IrqEvent) (qidx : Nat) (irq : IrqSignal) :
    unsignalled q (log ++ [.signalled qidx irq]) = if qidx = q then 0 else unsignalled q log := by
  unfold unsignalled
  rw [List.foldl_append]
  rfl

theorem irqView_posted (s : IrqSystem) (qidx : Nat) :
    irqView q { s with log := s.log ++ [.posted qidx] } = if qidx = q then
      { irqView q s with posted := (irqView q s).posted + 1, fresh := (irqView q s).fresh + 1 }
      else irqView q s := by
  unfold irqView postedCount signalCount
  dsimp only
  rw [unsignalled_posted, List.count_append, List.countP_append, List.count_singleton, List.countP_singleton]
  by_cases h : qidx = q
  · subst h
    simp [IrqEvent.isSignal]
  · simp [h, IrqEvent.isSignal]

theorem irqView_signalled (s : IrqSystem) (qidx : Nat) (pci : PciIrq) (irq : IrqSignal) :
    irqView q { s with pci := pci, log := s.log ++ [.signalled qidx irq] } = if qidx = q then
      { irqView q s with fresh := 0, told := (irqView q s).told + 1 } else irqView q s := by
  unfold irqView postedCount signalCount
  dsimp only
  rw [unsignalled_signalled, List.count_append, List.countP_append, List.count_singleton,
    List.countP_singleton]
  by_cases h : qidx = q
  · subst h
    simp [IrqEvent.isSignal]
  · simp [h, IrqEvent.isSignal]

/-- The worker may enter the section of the queue. -/
structure Enters (cfg : IrqConfig) (s : IrqSystem) (worker qidx : Nat) (cq : IrqQueue) : Prop where
  inRange : qidx ≤ s.nrCq
  served : cfg.serves worker qidx = true
  queue : s.cqes qidx = some cq
  enabled : cq.irqEnabled = true
  unlocked : cq.irqLock = none

def IrqSystem.enter (s : IrqSystem) (worker qidx : Nat) (cq : IrqQueue) : IrqSystem :=
  (s.setCq qidx { cq with irqLock := some worker }).goto worker (.inside qidx .locked)

def IrqSystem.signal (s : IrqSystem) (qidx : Nat) (cq : IrqQueue) : IrqSystem :=
  { s with
    pci := (nvmevSignalIrq s.pci cq.irqVector).1
    log := s.log ++ [.signalled qidx (nvmevSignalIrq s.pci cq.irqVector).2] }

theorem irqTurn_enter (hpc : s.pc worker = .scan qidx) (h : Enters cfg s worker qidx cq) :
    irqTurn cfg s worker = s.enter worker qidx cq := by
  unfold irqTurn
  rw [hpc]
  dsimp only
  rw [if_neg (Nat.not_lt.mpr h.inRange), if_pos h.served, h.queue]
  dsimp only
  rw [if_pos h.enabled, h.unlocked]
  rfl

/-- A queue that the worker may not enter is passed by; past the last one it goes back to its list. -/
theorem irqTurn_skip (hpc : s.pc worker = .scan qidx) (h : ∀ cq, ¬ Enters cfg s worker qidx cq) :
    irqTurn cfg s worker =
      s.goto worker (if s.nrCq < qidx then .work else .scan (qidx + 1)) := by
  unfold irqTurn
  rw [hpc]
  dsimp only
  by_cases hend : s.nrCq < qidx
  · rw [if_pos hend, if_pos hend]
  · rw [if_neg hend, if_neg hend]
    split
    · rename_i hserved
      cases hq : s.cqes qidx with
      | none => rfl
      | some cq =>
        dsimp only
        split
        · rename_i henabled
          cases hl : cq.irqLock with
          | some _ => rfl
          | none => exact absurd ⟨Nat.not_lt.mp hend, hserved, hq, henabled, hl⟩ (h cq)
        · rfl
    · rfl

theorem irqTurn_look (hpc : s.pc worker = .inside qidx .locked) (hq : s.cqes qidx = some cq) :
    irqTurn cfg s worker =
      s.goto worker (.inside qidx (if cq.posting.cq.interruptReady then .seen else .leaving)) := by
  unfold irqTurn
  rw [hpc]
  dsimp only
  rw [hq]

theorem irqTurn_clear (hpc : s.pc worker = .inside qidx .seen) (hq : s.cqes qidx = some cq) :
    irqTurn cfg s worker = (s.setCq qidx (cq.setReady false)).goto worker (.inside qidx .cleared) := by
  unfold irqTurn
  rw [hpc]
  dsimp only
  rw [hq]

theorem irqTurn_signal (hpc : s.pc worker = .inside qidx .cleared) (hq : s.cqes qidx = some cq) :
    irqTurn cfg s worker = (s.signal qidx cq).goto worker (.inside qidx .leaving) := by
  unfold irqTurn
  rw [hpc]
  dsimp only
  rw [hq]
  rfl

theorem irqTurn_leave (hpc : s.pc worker = .inside qidx .leaving) (hq : s.cqes qidx = some cq) :
    irqTurn cfg s worker = (s.setCq qidx { cq with irqLock := none }).goto worker (.scan (qidx + 1)) := by
  unfold irqTurn
  rw [hpc]
  dsimp only
  rw [hq]

theorem irqTurn_work (hpc : s.pc worker = .work) : irqTurn cfg s worker = s := by
  unfold irqTurn
  rw [hpc]

/-- In the section of its queue a worker takes a step of the protocol. -/
theorem inside_view_self {sec : IrqSection} (cfg : IrqConfig) (hpc : s.pc worker = .inside qidx sec)
    (hq : s.cqes qidx = some cq) :
    Notify.Step (irqView qidx s) (irqView qidx (irqTurn cfg s worker)) := by
  have hst : (irqView qidx s).stage worker = sec.stage := by
    change irqStage qidx (s.pc worker) = _
    rw [hpc]
    exact irqStage_self sec
  obtain ⟨hflag, hlock⟩ := irqView_queue hq
  cases sec with
  | locked =>
    rw [irqTurn_look hpc hq, irqView_goto, irqStage_self]
    cases hr : cq.posting.cq.interruptReady with
    | true => exact .see hst (hflag.trans hr)
    | false => exact .pass hst (hflag.trans hr)
  | seen =>
    rw [irqTurn_clear hpc hq, irqView_goto, irqStage_self, irqView_setCq_self]
    have heq : (cq.setReady false).irqLock = (irqView qidx s).lock := hlock.symm
    rw [heq]
    exact .clear hst
  | cleared =>
    rw [irqTurn_signal hpc hq, irqView_goto, irqStage_self]
    unfold IrqSystem.signal
    rw [irqView_signalled, if_pos rfl]
    exact .tell hst
  | leaving =>
    rw [irqTurn_leave hpc hq, irqView_goto, irqView_setCq_self, ← hflag]
    exact .leave hst

theorem inside_view_other {sec : IrqSection} (cfg : IrqConfig) (hpc : s.pc worker = .inside qidx sec)
    (hq : s.cqes qidx = some cq) (hne : q ≠ qidx) :
    irqView q (irqTurn cfg s worker) = irqView q s := by
  have haway : irqStage q (s.pc worker) = .away := by
    rw [hpc]
    exact irqStage_other hne
  cases sec with
  | locked =>
    rw [irqTurn_look hpc hq]
    exact irqView_goto_away haway (irqStage_other hne)
  | seen =>
    rw [irqTurn_clear hpc hq]
    refine Eq.trans (irqView_goto_away ?_ (irqStage_other hne)) (irqView_setCq_other s _ hne)
    exact haway
  | cleared =>
    have hsignal : irqView q (s.signal qidx cq) = irqView q s := by
      unfold IrqSystem.signal
      rw [irqView_signalled, if_neg (Ne.symm hne)]
    rw [irqTurn_signal hpc hq]
    refine Eq.trans (irqView_goto_away ?_ (irqStage_other hne)) hsignal
    exact haway
  | leaving =>
    rw [irqTurn_leave hpc hq]
    refine Eq.trans (irqView_goto_away ?_ rfl) (irqView_setCq_other s _ hne)
    exact haway

theorem irqTurn_view (cfg : IrqConfig) (s : IrqSystem) (worker q : Nat)
    (hin : ∀ qidx sec, s.pc worker = .inside qidx sec → ∃ cq, s.cqes qidx = some cq) :
    Notify.Step (irqView q s) (irqView q (irqTurn cfg s worker)) ∨
      irqView q (irqTurn cfg s worker) = irqView q s := by
  cases hpc : s.pc worker with
  | work =>
    right
    rw [irqTurn_work hpc]
  | scan qidx =>
    have haway : irqStage q (s.pc worker) = .away := by
      rw [hpc]
      rfl
    by_cases hcan : ∃ cq, Enters cfg s worker qidx cq
    · obtain ⟨cq, h⟩ := hcan
      rw [irqTurn_enter hpc h]
      unfold IrqSystem.enter
      by_cases hq : q = qidx
      · subst hq
        left
        obtain ⟨hflag, hlock⟩ := irqView_queue h.queue
        rw [irqView_goto, irqStage_self, irqView_setCq_self, ← hflag]
        exact .enter haway (hlock.trans h.unlocked)
      · right
        refine Eq.trans (irqView_goto_away ?_ (irqStage_other hq)) (irqView_setCq_other s _ hq)
        exact haway
    · right
      rw [irqTurn_skip hpc (fun cq h => hcan ⟨cq, h⟩)]
      refine irqView_goto_away haway ?_
      split <;> rfl
  | inside qidx sec =>
    obtain ⟨cq, hcq⟩ := hin qidx sec hpc
    by_cases hq : q = qidx
    · subst hq
      exact Or.inl (inside_view_self cfg hpc hcq)
    · exact Or.inr (inside_view_other cfg hpc hcq hq)

def SameIrq (s s' : IrqSystem) : Prop :=
  ∀ q cq, s.cqes q = some cq → ∃ cq', s'.cqes q = some cq' ∧ cq'.irqEnabled = cq.irqEnabled ∧
    cq'.irqVector = cq.irqVector

/-- A worker is only in the section of a queue that it serves and that has interrupts enabled; only such
queues have been signalled, with their vectors. -/
structure IrqOk (cfg : IrqConfig) (s : IrqSystem) : Prop where
  inside : ∀ worker qidx sec, s.pc worker = .inside qidx sec → cfg.serves worker qidx = true ∧
    ∃ cq, s.cqes qidx = some cq ∧ cq.irqEnabled = true
  signalled : ∀ qidx irq, .signalled qidx irq ∈ s.log → ∃ cq, s.cqes qidx = some cq ∧
    cq.irqEnabled = true ∧ (irq = .msi cq.irqVector ∨ irq = .int)

theorem nvmevSignalIrq_snd (pci : PciIrq) (msiIndex : Nat) :
    (nvmevSignalIrq pci msiIndex).2 = .msi msiIndex ∨ (nvmevSignalIrq pci msiIndex).2 = .int := by
  unfold nvmevSignalIrq
  split
  · exact Or.inl rfl
  · exact Or.inr rfl

theorem SameIrq.setCq {cq' : IrqQueue} (hq : s.cqes qidx = some cq)
    (henabled : cq'.irqEnabled = cq.irqEnabled)
    (hvector : cq'.irqVector = cq.irqVector) : SameIrq s (s.setCq qidx cq') := by
  intro q c hc
  change ∃ c', Function.update s.cqes qidx (some cq') q = some c' ∧ _
  by_cases h : q = qidx
  · subst h
    obtain rfl : cq = c := Option.some.inj (hq.symm.trans hc)
    rw [Function.update_self]
    exact ⟨cq', rfl, henabled, hvector⟩
  · rw [Function.update_of_ne h]
    exact ⟨c, hc, rfl, rfl⟩

theorem SameIrq.same : SameIrq s s := fun _ cq hc => ⟨cq, hc, rfl, rfl⟩

structure IrqFrame (cfg : IrqConfig) (s s' : IrqSystem) : Prop where
  queues : SameIrq s s'
  pc : ∀ worker qidx sec, s'.pc worker = .inside qidx sec →
    (∃ sec', s.pc worker = .inside qidx sec') ∨ ∃ cq, Enters cfg s worker qidx cq
  log : ∀ qidx irq, .signalled qidx irq ∈ s'.log → .signalled qidx irq ∈ s.log ∨
    ∃ worker sec cq, s.pc worker = .inside qidx sec ∧ s.cqes qidx = some cq ∧
      irq = (nvmevSignalIrq s.pci cq.irqVector).2

theorem IrqFrame.ok (f : IrqFrame cfg s s') (k : IrqOk cfg s) : IrqOk cfg s' := by
  constructor
  · intro worker qidx sec hpc
    have hbefore : cfg.serves worker qidx = true ∧ ∃ cq, s.cqes qidx = some cq ∧ cq.irqEnabled = true := by
      rcases f.pc worker qidx sec hpc with ⟨sec', hpc'⟩ | ⟨cq, h⟩
      · exact k.inside worker qidx sec' hpc'
      · exact ⟨h.served, cq, h.queue, h.enabled⟩
    obtain ⟨hserved, cq, hcq, henabled⟩ := hbefore
    obtain ⟨cq', hcq', he, -⟩ := f.queues qidx cq hcq
    exact ⟨hserved, cq', hcq', he.trans henabled⟩
  · intro qidx irq hmem
    have hbefore : ∃ cq, s.cqes qidx = some cq ∧ cq.irqEnabled = true ∧
        (irq = .msi cq.irqVector ∨ irq = .int) := by
      rcases f.log qidx irq hmem with hold | ⟨worker, sec, cq, hpc, hcq, rfl⟩
      · exact k.signalled qidx irq hold
      · obtain ⟨-, cq', hcq', henabled⟩ := k.inside worker qidx sec hpc
        obtain rfl : cq' = cq := Option.some.inj (hcq'.symm.trans hcq)
        exact ⟨cq', hcq', henabled, nvmevSignalIrq_snd s.pci cq'.irqVector⟩
    obtain ⟨cq, hcq, henabled, hirq⟩ := hbefore
    obtain ⟨cq', hcq', he, hv⟩ := f.queues qidx cq hcq
    exact ⟨cq', hcq', he.trans henabled, by rwa [hv]⟩

/-- A worker that goes on, with the queues as in `s`. -/
theorem IrqFrame.goto {t : IrqSystem} {pc : WorkerPc} (hq : SameIrq s t) (hpc : t.pc = s.pc)
    (hlog : t.log = s.log)
    (hto : ∀ qidx sec, pc = .inside qidx sec →
      (∃ sec', s.pc worker = .inside qidx sec') ∨ ∃ cq, Enters cfg s worker qidx cq) :
    IrqFrame cfg s (t.goto worker pc) := by
  refine ⟨hq, ?_, ?_⟩
  · intro w qidx sec h
    change Function.update t.pc worker pc w = _ at h
    rw [hpc] at h
    by_cases hw : w = worker
    · subst hw
      rw [Function.update_self] at h
      exact hto qidx sec h
    · rw [Function.update_of_ne hw] at h
      exact Or.inl ⟨sec, h⟩
  · intro qidx irq h
    change _ ∈ t.log at h
    rw [hlog] at h
    exact Or.inl h

theorem IrqFrame.still (hq : SameIrq s s') (hpc : s'.pc = s.pc)
    (hlog : ∀ qidx irq, .signalled qidx irq ∈ s'.log → .signalled qidx irq ∈ s.log) : IrqFrame cfg s s' where
  queues := hq
  pc _ _ sec h := Or.inl ⟨sec, hpc ▸ h⟩
  log qidx irq h := Or.inl (hlog qidx irq h)

theorem irqTurn_frame (k : IrqOk cfg s) (worker : Nat) : IrqFrame cfg s (irqTurn cfg s worker) := by
  cases hpc : s.pc worker with
  | work =>
    rw [irqTurn_work hpc]
    exact .still .same rfl fun _ _ => id
  | scan qidx =>
    by_cases hcan : ∃ cq, Enters cfg s worker qidx cq
    · obtain ⟨cq, h⟩ := hcan
      rw [irqTurn_enter hpc h]
      refine .goto (.setCq h.queue rfl rfl) rfl rfl ?_
      rintro _ _ ⟨⟩
      exact Or.inr ⟨cq, h⟩
    · rw [irqTurn_skip hpc (fun cq h => hcan ⟨cq, h⟩)]
      refine .goto .same rfl rfl ?_
      intro q sec h
      split at h <;> cases h
  | inside qidx sec =>
    obtain ⟨-, cq, hcq, -⟩ := k.inside worker qidx sec hpc
    have hto : ∀ q sec', WorkerPc.inside qidx sec = .inside q sec' →
        (∃ sec', s.pc worker = .inside q sec') ∨ ∃ cq, Enters cfg s worker q cq := by
      rintro _ _ ⟨⟩
      exact Or.inl ⟨sec, hpc⟩
    cases sec with
    | locked =>
      rw [irqTurn_look hpc hcq]
      refine .goto .same rfl rfl ?_
      rintro _ _ ⟨⟩
      exact Or.inl ⟨_, hpc⟩
    | seen =>
      rw [irqTurn_clear hpc hcq]
      refine .goto (.setCq hcq rfl rfl) rfl rfl ?_
      rintro _ _ ⟨⟩
      exact Or.inl ⟨_, hpc⟩
    | cleared =>
      rw [irqTurn_signal hpc hcq]
      refine ⟨.same, ?_, ?_⟩
      · intro w q sec h
        change Function.update s.pc worker _ w = _ at h
        by_cases hw : w = worker
        · subst hw
          rw [Function.update_self] at h
          cases h
          exact Or.inl ⟨_, hpc⟩
        · rw [Function.update_of_ne hw] at h
          exact Or.inl ⟨sec, h⟩
      · intro q irq h
        rcases List.mem_append.mp h with hold | hnew
        · exact Or.inl hold
        · cases List.mem_singleton.mp hnew
          exact Or.inr ⟨worker, _, cq, hpc, hcq, rfl⟩
    | leaving =>
      rw [irqTurn_leave hpc hcq]
      refine .goto (.setCq hcq rfl rfl) rfl rfl ?_
      rintro _ _ ⟨⟩

theorem SameIrq.create {cq' : IrqQueue} (hq : s.cqes qidx = none) : SameIrq s (s.setCq qidx cq') := by
  intro q c hc
  have hne : q ≠ qidx := by
    rintro rfl
    rw [hq] at hc
    cases hc
  exact ⟨c, (Function.update_of_ne hne _ _).trans hc, rfl, rfl⟩

theorem IrqStep.frame (k : IrqOk cfg s) (h : IrqStep cfg s s') : IrqFrame cfg s s' := by
  cases h with
  | create _ _ _ _ hcq => exact .still (.create hcq) rfl fun _ _ => id
  | setNrCq _ => exact .still .same rfl fun _ _ => id
  | pick _ _ hcq _ => exact .still (.setCq hcq rfl rfl) rfl fun _ _ => id
  | fill hcq _ =>
    refine .still (.setCq hcq rfl rfl) rfl ?_
    intro qidx irq h
    rcases List.mem_append.mp h with hold | hnew
    · exact hold
    · cases List.mem_singleton.mp hnew
  | pass _ _ =>
    refine .goto .same rfl rfl ?_
    rintro _ _ ⟨⟩
  | turn worker => exact irqTurn_frame k worker
  | pciWrite _ => exact .still .same rfl fun _ _ => id

theorem irqView_setCq_same {cq' : IrqQueue} (hq : s.cqes qidx = some cq)
    (hready : cq'.posting.cq.interruptReady = cq.posting.cq.interruptReady)
    (hlock : cq'.irqLock = cq.irqLock) :
    irqView q (s.setCq qidx cq') = irqView q s := by
  by_cases h : q = qidx
  · subst h
    obtain ⟨hf, hl⟩ := irqView_queue hq
    rw [irqView_setCq_self, hready, hlock, ← hf, ← hl]
  · exact irqView_setCq_other s cq' h

theorem irqView_fill {slot : Nat} {w : IoWork} (hq : s.cqes qidx = some cq) :
    irqView qidx { s.setCq qidx { cq with posting := cq.posting.fill worker slot w } with
        log := s.log ++ [.posted qidx] } =
      { irqView qidx s with
        flag := true
        posted := (irqView qidx s).posted + 1
        fresh := (irqView qidx s).fresh + 1 } := by
  obtain ⟨-, hl⟩ := irqView_queue hq
  have h := irqView_posted (q := qidx)
    (s.setCq qidx { cq with posting := cq.posting.fill worker slot w }) qidx
  rw [if_pos rfl, irqView_setCq_self] at h
  refine h.trans ?_
  dsimp only
  rw [hl]
  rfl

theorem irqView_fill_other {slot : Nat} {w : IoWork} (hne : q ≠ qidx) :
    irqView q { s.setCq qidx { cq with posting := cq.posting.fill worker slot w } with
        log := s.log ++ [.posted qidx] } = irqView q s := by
  have h := irqView_posted (q := q) (s.setCq qidx { cq with posting := cq.posting.fill worker slot w }) qidx
  rw [if_neg (Ne.symm hne), irqView_setCq_other s _ hne] at h
  exact h

theorem irqView_create {cq' : IrqQueue} (hq : s.cqes qidx = none)
    (hready : cq'.posting.cq.interruptReady = false) (hlock : cq'.irqLock = none) :
    irqView q (s.setCq qidx cq') = irqView q s := by
  by_cases h : q = qidx
  · subst h
    have hf : (irqView q s).flag = false ∧ (irqView q s).lock = none := by
      unfold irqView
      rw [hq]
      exact ⟨rfl, rfl⟩
    rw [irqView_setCq_self, hready, hlock, ← hf.1, ← hf.2]
  · exact irqView_setCq_other s cq' h

theorem IrqStep.view (k : IrqOk cfg s) (h : IrqStep cfg s s') (q : Nat) :
    Notify.Step (irqView q s) (irqView q s') ∨ irqView q s' = irqView q s := by
  cases h with
  | create _ _ _ _ hcq => exact Or.inr (irqView_create hcq rfl rfl)
  | setNrCq _ => exact Or.inr rfl
  | pick _ _ hcq _ => exact Or.inr (irqView_setCq_same hcq rfl rfl)
  | @fill _ qidx _ cq _ hcq _ =>
    by_cases hq : q = qidx
    · subst hq
      left
      rw [irqView_fill hcq]
      exact .post
    · exact Or.inr (irqView_fill_other hq)
  | @pass worker hpc _ =>
    right
    refine irqView_goto_away ?_ rfl
    rw [hpc]
    rfl
  | turn worker =>
    refine irqTurn_view cfg s worker q ?_
    intro qidx sec hpc
    obtain ⟨-, cq, hcq, -⟩ := k.inside worker qidx sec hpc
    exact ⟨cq, hcq⟩
  | pciWrite _ => exact Or.inr rfl

theorem IrqInitial.ok (h : IrqInitial s) : IrqOk cfg s where
  inside worker qidx sec hpc := by
    rw [h.work worker] at hpc
    cases hpc
  signalled qidx irq hmem := by
    rw [h.log] at hmem
    exact absurd hmem List.not_mem_nil

theorem IrqInitial.inv (h : IrqInitial s) (q : Nat) : Notify.Inv (irqView q s) := by
  have hlock : (irqView q s).lock = none := by
    unfold irqView
    rw [h.cqes q]
    rfl
  have hstage : ∀ w, (irqView q s).stage w = .away := by
    intro w
    change irqStage q (s.pc w) = .away
    rw [h.work w]
    rfl
  have hcounts : (irqView q s).posted = 0 ∧ (irqView q s).fresh = 0 ∧ (irqView q s).told = 0 := by
    unfold irqView
    rw [h.log]
    exact ⟨rfl, rfl, rfl⟩
  have hflag : (irqView q s).flag = false := by
    unfold irqView
    rw [h.cqes q]
    rfl
  refine ⟨?_, ?_, ?_, ?_⟩
  · intro w
    rw [hstage w, hlock]
    simp
  · intro w hs
    rw [hstage w] at hs
    cases hs
  · intro hpos
    omega
  · unfold Notify.State.owed
    rw [hlock, hflag, hcounts.1, hcounts.2.2]
    exact Nat.le_refl 0

theorem IrqReachable.ok (h : IrqReachable cfg s) : IrqOk cfg s := by
  induction h with
  | init h => exact h.ok
  | step _ hs ih => exact (hs.frame ih).ok ih

theorem IrqReachable.inv (h : IrqReachable cfg s) (q : Nat) : Notify.Inv (irqView q s) := by
  induction h with
  | init h => exact h.inv q
  | step hr hs ih => exact ih.simulated (hs.view hr.ok q)

theorem irqStage_cleared {pc : WorkerPc} (h : irqStage q pc = .cleared) : pc = .inside q .cleared := by
  cases pc with
  | work => cases h
  | scan _ => cases h
  | inside qidx sec =>
    unfold irqStage at h
    dsimp only at h
    split at h
    · rename_i heq
      rw [heq]
      cases sec <;> first | rfl | cases h
    · cases h

/-- In any interleaving at most one worker is in the section of a queue, and a completion that no
signal has followed yet is announced by `interrupt_ready` or by the worker that is about to signal. -/
theorem no_interrupt_lost (cfg : IrqConfig) (s : IrqSystem) (hr : IrqReachable cfg s) (qidx : Nat)
    (cq : IrqQueue) (hq : s.cqes qidx = some cq) :
    (0 < unsignalled qidx s.log →
      cq.posting.cq.interruptReady = true ∨ ∃ w, s.pc w = .inside qidx .cleared) ∧
    (∀ w w' sec sec', s.pc w = .inside qidx sec → s.pc w' = .inside qidx sec' → w = w') ∧
    signalCount qidx s.log ≤ postedCount qidx s.log ∧
    ∀ irq, .signalled qidx irq ∈ s.log → cq.irqEnabled = true ∧ (irq = .msi cq.irqVector ∨ irq = .int) := by
  have k := hr.inv qidx
  obtain ⟨hflag, -⟩ := irqView_queue hq
  refine ⟨?_, ?_, ?_, ?_⟩
  · intro hpos
    rcases k.pending hpos with hf | ⟨w, hw⟩
    · exact Or.inl (hflag.symm.trans hf)
    · exact Or.inr ⟨w, irqStage_cleared hw⟩
  · intro w w' sec sec' hpc hpc'
    have hinside : ∀ w sec, s.pc w = .inside qidx sec → (irqView qidx s).stage w ≠ .away := by
      intro w sec hpc
      change irqStage qidx (s.pc w) ≠ .away
      rw [hpc, irqStage_self]
      cases sec <;> decide
    exact k.alone (hinside w sec hpc) (hinside w' sec' hpc')
  · have hcount := k.count
    change signalCount qidx s.log + _ + _ ≤ postedCount qidx s.log at hcount
    omega
  · intro irq hmem
    obtain ⟨cq', hcq', henabled, hirq⟩ := hr.ok.signalled qidx irq hmem
    obtain rfl : cq' = cq := Option.some.inj (hcq'.symm.trans hq)
    exact ⟨henabled, hirq⟩

/-- Before any queue is created, with one queue requested and MSI-X enabled. -/
def noQueues : IrqSystem where
  cqes _ := none
  nrCq := 1
  pc _ := .work
  pci := ⟨true, false, false⟩
  log := []

theorem IrqSystem.NotPosting.setCq (h : s.NotPosting worker) (hcq : cq.posting.picked worker = none) :
    (s.setCq qidx cq).NotPosting worker := by
  intro q c hc
  by_cases hq : q = qidx
  · subst hq
    obtain rfl := Option.some.inj (setCq_cqes.symm.trans hc)
    exact hcq
  · rw [setCq_cqes_other hq] at hc
    exact h q c hc

theorem setCq_twice (cq cq' : IrqQueue) : (s.setCq qidx cq).setCq qidx cq' = s.setCq qidx cq' := by
  unfold IrqSystem.setCq
  dsimp only
  rw [Function.update_idem]

theorem pick_picked (p : Posting) (worker : Nat) (w : IoWork) :
    (p.pick worker w).picked worker = some (p.cq.cqHead, w) := Function.update_self _ _ _

theorem fill_picked (p : Posting) (worker slot : Nat) (w : IoWork) :
    (p.fill worker slot w).picked worker = none := Function.update_self _ _ _

/-- The dispatcher creates queue 1 with vector 5, and worker 0 posts a completion and begins its pass. -/
theorem noQueues_posted : ∃ cfg s cq, IrqReachable cfg s ∧ s.pc 0 = .scan 1 ∧ s.nrCq = 1 ∧
    Enters cfg s 0 1 cq ∧ unsignalled 1 s.log = 1 := by
  have hnone : noQueues.NotPosting 0 := fun _ _ hc => nomatch hc
  have h₀ : IrqReachable ⟨nvmevIoWorkerInit 1, false⟩ noQueues := .init ⟨fun _ => rfl, fun _ => rfl, rfl⟩
  have h₁ := h₀.step (@IrqStep.create _ _ 1 1 3 5 (fun _ => zeroCompletion) rfl)
  have h₂ := h₁.step (@IrqStep.pick _ _ 0 1 _ (ioWork 7) rfl setCq_cqes (hnone.setCq rfl))
  rw [setCq_twice] at h₂
  have h₃ := h₂.step (@IrqStep.fill _ _ 0 1 _ _ _ setCq_cqes (pick_picked _ 0 (ioWork 7)))
  rw [setCq_twice] at h₃
  have h₄ := h₃.step (@IrqStep.pass _ _ 0 rfl (hnone.setCq (fill_picked _ 0 _ _)))
  exact ⟨_, _, _, h₄, goto_pc _, rfl, ⟨Nat.le_refl 1, rfl, @setCq_cqes noQueues 1 _, rfl, rfl⟩, rfl⟩

theorem no_interrupt_lost_posted : ∃ cfg s, IrqReachable cfg s ∧ unsignalled 1 s.log = 1 ∧
    (∃ cq, s.cqes 1 = some cq ∧ cq.posting.cq.interruptReady = true ∨ ∃ w, s.pc w = .inside 1 .cleared) := by
  obtain ⟨cfg, s, cq, hr, _, _, h, hone⟩ := noQueues_posted
  refine ⟨cfg, s, hr, hone, cq, ?_⟩
  rcases (no_interrupt_lost cfg s hr 1 cq h.queue).1 (by omega) with hready | hcleared
  · exact Or.inl ⟨h.queue, hready⟩
  · exact Or.inr hcleared

def irqTurns (cfg : IrqConfig) (worker n : Nat) (s : IrqSystem) : IrqSystem :=
  (fun s => irqTurn cfg s worker)^[n] s

theorem IrqReachable.turns (hr : IrqReachable cfg s) (worker n : Nat) :
    IrqReachable cfg (irqTurns cfg worker n s) := by
  induction n generalizing s with
  | zero => exact hr
  | succ n ih => exact ih (hr.step (.turn worker))

theorem irqTurns_add (m n : Nat) :
    irqTurns cfg worker (m + n) s = irqTurns cfg worker m (irqTurns cfg worker n s) :=
  Function.iterate_add_apply _ m n s

/-- Signalled, and ready for the next completion. -/
def IrqSettled (s : IrqSystem) (qidx : Nat) : Prop :=
  unsignalled qidx s.log = 0 ∧
    ∃ cq, s.cqes qidx = some cq ∧ cq.irqLock = none ∧ cq.posting.cq.interruptReady = false

theorem IrqReachable.settled (hr : IrqReachable cfg s) (hq : s.cqes qidx = some cq)
    (hlock : cq.irqLock = none)
    (hready : cq.posting.cq.interruptReady = false) : IrqSettled s qidx := by
  obtain ⟨hf, hl⟩ := irqView_queue hq
  exact ⟨(hr.inv qidx).free (hl.trans hlock) (hf.trans hready), cq, hq, hlock, hready⟩

/-- What the worker does at one queue leaves the others as they are. -/
structure Elsewhere (s s' : IrqSystem) (qidx : Nat) : Prop where
  nrCq : s'.nrCq = s.nrCq
  cqes : ∀ q, q ≠ qidx → s'.cqes q = s.cqes q
  log : ∀ q, q ≠ qidx → unsignalled q s'.log = unsignalled q s.log

theorem Elsewhere.trans {s'' : IrqSystem} (h : Elsewhere s s' qidx) (h' : Elsewhere s' s'' qidx) :
    Elsewhere s s'' qidx where
  nrCq := h'.nrCq.trans h.nrCq
  cqes q hq := (h'.cqes q hq).trans (h.cqes q hq)
  log q hq := (h'.log q hq).trans (h.log q hq)

theorem Elsewhere.goto (pc : WorkerPc) : Elsewhere s (s.goto worker pc) qidx where
  nrCq := rfl
  cqes _ _ := rfl
  log _ _ := rfl

theorem Elsewhere.setCq (pc : WorkerPc) : Elsewhere s ((s.setCq qidx cq).goto worker pc) qidx where
  nrCq := rfl
  cqes _ hq := setCq_cqes_other hq
  log _ _ := rfl

theorem Elsewhere.signal (pc : WorkerPc) : Elsewhere s ((s.signal qidx cq).goto worker pc) qidx where
  nrCq := rfl
  cqes _ _ := rfl
  log _ hq := (unsignalled_signalled s.log qidx _).trans (if_neg (Ne.symm hq))

/-- The section of a queue ends after at most four more turns. -/
theorem section_ends (hr : IrqReachable cfg s) (hpc : s.pc worker = .inside qidx .locked)
    (hq : s.cqes qidx = some cq) : ∃ n ≤ 4, (irqTurns cfg worker n s).pc worker = .scan (qidx + 1) ∧
      Elsewhere s (irqTurns cfg worker n s) qidx ∧ IrqSettled (irqTurns cfg worker n s) qidx := by
  have hlook : irqTurn cfg s worker = _ := irqTurn_look hpc hq
  cases hready : cq.posting.cq.interruptReady with
  | false =>
    rw [hready] at hlook
    set s₁ := s.goto worker (.inside qidx .leaving) with hs₁
    have hleave : irqTurn cfg s₁ worker = _ := irqTurn_leave (goto_pc _) hq
    have hend : irqTurns cfg worker 2 s = (s₁.setCq qidx { cq with irqLock := none }).goto worker
      (.scan (qidx + 1)) := by
      change irqTurn cfg (irqTurn cfg s worker) worker = _
      rw [hlook]
      exact hleave
    refine ⟨2, by omega, ?_, ?_, ?_⟩
    · rw [hend]
      exact goto_pc _
    · rw [hend]
      exact (Elsewhere.goto _).trans (Elsewhere.setCq _)
    · have hr' := hr.turns worker 2
      rw [hend] at hr' ⊢
      exact hr'.settled setCq_cqes rfl hready
  | true =>
    rw [hready] at hlook
    set s₁ := s.goto worker (.inside qidx .seen) with hs₁
    have hclear : irqTurn cfg s₁ worker = _ := irqTurn_clear (goto_pc _) hq
    set s₂ := (s₁.setCq qidx (cq.setReady false)).goto worker (.inside qidx .cleared) with hs₂
    have hq₂ : s₂.cqes qidx = some (cq.setReady false) := setCq_cqes
    have hsignal : irqTurn cfg s₂ worker = _ := irqTurn_signal (goto_pc _) hq₂
    set s₃ := (s₂.signal qidx (cq.setReady false)).goto worker (.inside qidx .leaving) with hs₃
    have hleave : irqTurn cfg s₃ worker = _ := irqTurn_leave (goto_pc _) hq₂
    have hend : irqTurns cfg worker 4 s =
        (s₃.setCq qidx { cq.setReady false with irqLock := none }).goto worker (.scan (qidx + 1)) := by
      change irqTurn cfg (irqTurn cfg (irqTurn cfg (irqTurn cfg s worker) worker) worker) worker = _
      rw [hlook, if_pos rfl, hclear, hsignal]
      exact hleave
    refine ⟨4, Nat.le_refl 4, ?_, ?_, ?_⟩
    · rw [hend]
      exact goto_pc _
    · rw [hend]
      exact (((Elsewhere.goto _).trans (Elsewhere.setCq _)).trans (Elsewhere.signal _)).trans
        (Elsewhere.setCq _)
    · have hr' := hr.turns worker 4
      rw [hend] at hr' ⊢
      exact hr'.settled setCq_cqes rfl rfl

theorem pass_queue (hr : IrqReachable cfg s) (hpc : s.pc worker = .scan qidx) (hle : qidx ≤ s.nrCq) :
    ∃ n ≤ 5, (irqTurns cfg worker n s).pc worker = .scan (qidx + 1) ∧
      Elsewhere s (irqTurns cfg worker n s) qidx ∧
      ((∃ cq, Enters cfg s worker qidx cq) → IrqSettled (irqTurns cfg worker n s) qidx) := by
  by_cases hcan : ∃ cq, Enters cfg s worker qidx cq
  · obtain ⟨cq, h⟩ := hcan
    have henter := irqTurn_enter hpc h
    have hr₁ := hr.step (.turn worker)
    rw [henter] at hr₁
    have hq₁ : (s.enter worker qidx cq).cqes qidx = some { cq with irqLock := some worker } := setCq_cqes
    obtain ⟨n, hn, hpc', helse, hsettled⟩ := section_ends hr₁ (goto_pc _) hq₁
    have hsplit : irqTurns cfg worker (n + 1) s = irqTurns cfg worker n (s.enter worker qidx cq) := by
      change irqTurns cfg worker n (irqTurn cfg s worker) = _
      rw [henter]
    refine ⟨n + 1, by omega, ?_, ?_, fun _ => ?_⟩
    · rw [hsplit]
      exact hpc'
    · rw [hsplit]
      exact (Elsewhere.setCq _).trans helse
    · rw [hsplit]
      exact hsettled
  · have hskip : irqTurns cfg worker 1 s = s.goto worker (.scan (qidx + 1)) := by
      change irqTurn cfg s worker = _
      rw [irqTurn_skip hpc (fun cq h => hcan ⟨cq, h⟩), if_neg (Nat.not_lt.mpr hle)]
    refine ⟨1, by omega, ?_, ?_, fun h => absurd h hcan⟩
    · rw [hskip]
      exact goto_pc _
    · rw [hskip]
      exact Elsewhere.goto _

theorem Enters.elsewhere (h : Enters cfg s worker q cq) (e : Elsewhere s s' qidx) (hne : q ≠ qidx) :
    Enters cfg s' worker q cq where
  inRange := e.nrCq.symm ▸ h.inRange
  served := h.served
  queue := (e.cqes q hne).trans h.queue
  enabled := h.enabled
  unlocked := h.unlocked

theorem IrqSettled.elsewhere (h : IrqSettled s q) (e : Elsewhere s s' qidx) (hne : q ≠ qidx) :
    IrqSettled s' q := by
  obtain ⟨hlog, cq, hcq, hlock, hready⟩ := h
  exact ⟨(e.log q hne).trans hlog, cq, (e.cqes q hne).trans hcq, hlock, hready⟩

/-- The rest of a pass: the queues before `qidx` stay settled, those from `qidx` on become so. -/
theorem pass_from (k : Nat) : ∀ {s : IrqSystem} {qidx : Nat}, IrqReachable cfg s → s.pc worker = .scan qidx →
    s.nrCq + 1 = qidx + k → ∃ n ≤ 5 * k + 1, (irqTurns cfg worker n s).pc worker = .work ∧
      (∀ q, q < qidx → IrqSettled s q → IrqSettled (irqTurns cfg worker n s) q) ∧
      ∀ q cq, qidx ≤ q → Enters cfg s worker q cq → IrqSettled (irqTurns cfg worker n s) q := by
  induction k with
  | zero =>
    intro s qidx hr hpc hk
    have hskip : irqTurns cfg worker 1 s = s.goto worker .work := by
      change irqTurn cfg s worker = _
      rw [irqTurn_skip hpc (fun cq h => by have := h.inRange; omega), if_pos (by omega)]
    refine ⟨1, by omega, ?_, ?_, ?_⟩
    · rw [hskip]
      exact goto_pc _
    · intro q _ h
      rw [hskip]
      exact h
    · intro q cq hle h
      have := h.inRange
      omega
  | succ k ih =>
    intro s qidx hr hpc hk
    obtain ⟨m, hm, hpc', helse, hself⟩ := pass_queue hr hpc (by omega)
    obtain ⟨n, hn, hwork, hbefore, hafter⟩ := ih (hr.turns worker m) hpc' (by rw [helse.nrCq]; omega)
    refine ⟨n + m, by omega, ?_, ?_, ?_⟩
    · rw [irqTurns_add]
      exact hwork
    · intro q hlt h
      rw [irqTurns_add]
      exact hbefore q (by omega) (h.elsewhere helse (by omega))
    · intro q cq hle h
      rw [irqTurns_add]
      rcases Nat.eq_or_lt_of_le hle with rfl | hlt
      · exact hbefore qidx (Nat.lt_succ_self qidx) (hself ⟨cq, h⟩)
      · exact hafter q cq hlt (h.elsewhere helse (by omega))

/-- A worker that makes its pass with no other taking a step is back at its list within five turns a
queue, and every queue that it could enter has been signalled for all that was posted. -/
theorem pass_signals (cfg : IrqConfig) (s : IrqSystem) (hr : IrqReachable cfg s) (worker : Nat)
    (hpc : s.pc worker = .scan 1) : ∃ n ≤ 5 * s.nrCq + 1, (irqTurns cfg worker n s).pc worker = .work ∧
      ∀ q cq, 1 ≤ q → Enters cfg s worker q cq → IrqSettled (irqTurns cfg worker n s) q := by
  obtain ⟨n, hn, hwork, -, hafter⟩ := pass_from s.nrCq hr hpc (Nat.add_comm _ _)
  exact ⟨n, hn, hwork, hafter⟩

theorem pass_signals_posted : ∃ cfg s n, IrqReachable cfg s ∧ unsignalled 1 s.log = 1 ∧
    IrqSettled (irqTurns cfg 0 n s) 1 := by
  obtain ⟨cfg, s, cq, hr, hpc, _, h, hone⟩ := noQueues_posted
  obtain ⟨n, _, _, hall⟩ := pass_signals cfg s hr 0 hpc
  exact ⟨cfg, s, n, hr, hone, hall 1 cq (Nat.le_refl 1) h⟩

end NVMeVirt
