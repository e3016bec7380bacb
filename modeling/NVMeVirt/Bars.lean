import NVMeVirt.AdminCompletions
import NVMeVirt.Doorbells
import NVMeVirt.IoCopy

/-!
# Controller registers

`nvmev_proc_bars` takes over one changed register of the BAR in each call. The events of a run
are its calls, the calls of `nvmev_proc_dbs` as far as the admin queue goes, and anything that
the host and the other queues do in between.
-/

namespace NVMeVirt
set_option autoImplicit false
open Outcome Ring

/-- The registers of `struct nvme_ctrl_regs` that the host sets up the controller with, and the
two fields of `CSTS` that the device sets. -/
structure CtrlRegs where
  aqa : Nat
  asq : Nat
  acq : Nat
  cc : Nat
  rdy : Bool
  shst : Nat
  deriving Repr, DecidableEq

namespace CtrlRegs
variable (r : CtrlRegs)

def asqs : Nat := r.aqa % 2^12
def acqs : Nat := r.aqa / 2^16 % 2^12
def en : Nat := r.cc % 2
def shn : Nat := r.cc / 2^14 % 4

end CtrlRegs

/-- The values seen by the calls so far. -/
structure OldBar where
  aqa : Nat
  asq : Nat
  acq : Nat
  cc : Nat
  deriving Repr, DecidableEq

structure Bars where
  adm : NvmevDev
  bar : CtrlRegs
  oldBar : OldBar

def nvmeCommandSize : Nat := 64
def nvmeCompletionSize : Nat := 16

/-- The array of page addresses allocated for `depth` entries at the register value `base`. -/
def queuePages (base depth entrySize : Nat) : QueuePages :=
  ⟨base / pageSize, divRoundUp (depth * entrySize) pageSize⟩

/-- The fields that the AQA branch sets in the queue, a zeroed one if there was none. -/
def initAdminQueue (queue : Option AdminQueue) (r : CtrlRegs) : AdminQueue where
  phase := true
  sqDepth := r.asqs + 1
  cqDepth := r.acqs + 1
  cqHead := 0
  nvmeSq := queue.bind AdminQueue.nvmeSq
  nvmeCq := queue.bind AdminQueue.nvmeCq

def procAqa (b : Bars) : Bars where
  adm := (({ b.adm with adminQ := some (initAdminQueue b.adm.adminQ b.bar) }).clearDb 0).clearDb 1
  bar := b.bar
  oldBar := { b.oldBar with aqa := b.bar.aqa }

def procAsq (queue : AdminQueue) (b : Bars) : Bars where
  adm := NvmevDev.clearDb { b.adm with adminQ := some { queue with
    sqDepth := b.bar.asqs + 1
    nvmeSq := some (queuePages b.bar.asq (b.bar.asqs + 1) nvmeCommandSize) } } 0
  bar := b.bar
  oldBar := { b.oldBar with asq := b.bar.asq }

def procAcq (queue : AdminQueue) (b : Bars) : Bars where
  adm := NvmevDev.clearDb { b.adm with adminQ := some { queue with
    cqDepth := b.bar.acqs + 1
    nvmeCq := some (queuePages b.bar.acq (b.bar.acqs + 1) nvmeCompletionSize)
    cqHead := 0 } } 1
  bar := b.bar
  oldBar := { b.oldBar with acq := b.bar.acq }

/-- Enable or disable: `CSTS.RDY` follows `CC.EN`, but needs an admin queue. -/
def procEnable (b : Bars) : CtrlRegs :=
  if b.bar.en = 1 then
    if b.adm.adminQ.isSome then { b.bar with rdy := true } else b.bar
  else { b.bar with rdy := false }

def procShutdown (v : NvmevDev) : Except Fault NvmevDev := do
  let queue ← v.queue
  return NvmevDev.clearDb (NvmevDev.clearDb { v with adminQ := some { queue with cqHead := 0 } } 0) 1

def procCc (b : Bars) : Except Fault Bars :=
  let oldBar := { b.oldBar with cc := b.bar.cc }
  if b.bar.shn = 1 then do
    let adm ← procShutdown b.adm
    return ⟨adm, { procEnable b with shst := 2 }, oldBar⟩
  else .ok ⟨b.adm, procEnable b, oldBar⟩

/-- One call takes over the first register that has changed; ASQ and ACQ wait for a queue. -/
def nvmevProcBars (b : Bars) : Except Fault Bars :=
  if b.oldBar.aqa ≠ b.bar.aqa then .ok (procAqa b)
  else if b.oldBar.asq ≠ b.bar.asq then
    match b.adm.adminQ with
    | none => .ok b
    | some queue => .ok (procAsq queue b)
  else if b.oldBar.acq ≠ b.bar.acq then
    match b.adm.adminQ with
    | none => .ok b
    | some queue => .ok (procAcq queue b)
  else if b.oldBar.cc ≠ b.bar.cc then procCc b
  else .ok b

inductive BarChange where
  | aqa | asq | acq | shutdown | cc | nothing
  deriving Repr, DecidableEq

def barChange (b : Bars) : BarChange :=
  if b.oldBar.aqa ≠ b.bar.aqa then .aqa
  else if b.oldBar.asq ≠ b.bar.asq then (if b.adm.adminQ.isSome then .asq else .nothing)
  else if b.oldBar.acq ≠ b.bar.acq then (if b.adm.adminQ.isSome then .acq else .nothing)
  else if b.oldBar.cc ≠ b.bar.cc then (if b.bar.shn = 1 then .shutdown else .cc)
  else .nothing

/-- The admin queue and the doorbells seen after a call, for each register it may have taken over. -/
inductive BarStep (b b' : Bars) : BarChange → Prop where
  | aqa : b'.adm.adminQ = some (initAdminQueue b.adm.adminQ b.bar) → b'.adm.oldDbs 0 = 0 →
    b'.adm.oldDbs 1 = 0 → BarStep b b' .aqa
  | asq (queue : AdminQueue) : b.adm.adminQ = some queue →
    b'.adm.adminQ = some { queue with
      sqDepth := b.bar.asqs + 1
      nvmeSq := some (queuePages b.bar.asq (b.bar.asqs + 1) nvmeCommandSize) } →
    b'.adm.oldDbs 0 = 0 → b'.adm.oldDbs 1 = b.adm.oldDbs 1 → BarStep b b' .asq
  | acq (queue : AdminQueue) : b.adm.adminQ = some queue →
    b'.adm.adminQ = some { queue with
      cqDepth := b.bar.acqs + 1
      nvmeCq := some (queuePages b.bar.acq (b.bar.acqs + 1) nvmeCompletionSize)
      cqHead := 0 } →
    b'.adm.oldDbs 0 = b.adm.oldDbs 0 → b'.adm.oldDbs 1 = 0 → BarStep b b' .acq
  | shutdown (queue : AdminQueue) : b.adm.adminQ = some queue →
    b'.adm.adminQ = some { queue with cqHead := 0 } → b'.adm.oldDbs 0 = 0 → b'.adm.oldDbs 1 = 0 →
    BarStep b b' .shutdown
  | cc : b'.adm = b.adm → BarStep b b' .cc
  | nothing : b' = b → BarStep b b' .nothing

theorem nvmevProcBars_step {b b' : Bars} (h : nvmevProcBars b = .ok b') : BarStep b b' (barChange b) := by
  unfold nvmevProcBars at h
  unfold barChange
  by_cases haqa : b.oldBar.aqa ≠ b.bar.aqa
  · rw [if_pos haqa] at h ⊢
    cases h
    exact .aqa rfl rfl rfl
  · rw [if_neg haqa] at h ⊢
    by_cases hasq : b.oldBar.asq ≠ b.bar.asq
    · rw [if_pos hasq] at h ⊢
      cases hq : b.adm.adminQ with
      | none =>
        rw [hq] at h
        exact .nothing (Except.ok.inj h).symm
      | some queue =>
        rw [hq] at h
        cases h
        exact .asq queue hq rfl rfl rfl
    · rw [if_neg hasq] at h ⊢
      by_cases hacq : b.oldBar.acq ≠ b.bar.acq
      · rw [if_pos hacq] at h ⊢
        cases hq : b.adm.adminQ with
        | none =>
          rw [hq] at h
          exact .nothing (Except.ok.inj h).symm
        | some queue =>
          rw [hq] at h
          cases h
          exact .acq queue hq rfl rfl rfl
      · rw [if_neg hacq] at h ⊢
        by_cases hcc : b.oldBar.cc ≠ b.bar.cc
        · rw [if_pos hcc] at h ⊢
          unfold procCc at h
          by_cases hshn : b.bar.shn = 1
          · rw [if_pos hshn] at h ⊢
            obtain ⟨adm, hadm, h⟩ := bind_eq_ok.mp h
            obtain ⟨queue, hq, hadm⟩ := bind_eq_ok.mp hadm
            cases hadm
            cases h
            have hqueue : b.adm.adminQ = some queue := by
              unfold NvmevDev.queue at hq
              split at hq
              · cases hq
              · rename_i heq
                rw [heq, Except.ok.inj hq]
            exact .shutdown queue hqueue rfl rfl rfl
          · rw [if_neg hshn] at h ⊢
            cases h
            exact .cc rfl
        · rw [if_neg hcc] at h ⊢
          exact .nothing (Except.ok.inj h).symm

/-- What has happened to the admin queue: the completions posted since `cq_head` was put back, the
wraps counted before that since the last change of AQA, and the doorbell values seen last since
they were put back. -/
structure AdminLog where
  posted : Nat
  laps : Nat
  sqDb : Nat
  cqDb : Nat
  deriving Repr, DecidableEq

def AdminLog.start : AdminLog := ⟨0, 0, 0, 0⟩

/-- A call of `nvmev_proc_bars`, with the depth of the completion queue before it. -/
def AdminLog.bars (log : AdminLog) (depth : Nat) : BarChange → AdminLog
  | .aqa => .start
  | .asq => { log with sqDb := 0 }
  | .acq => { log with posted := 0, laps := log.laps + log.posted / depth, cqDb := 0 }
  | .shutdown => ⟨0, log.laps + log.posted / depth, 0, 0⟩
  | .cc => log
  | .nothing => log

/-- The slots that `nvmev_proc_admin_sq` goes over. -/
def adminSlots (sqDepth : Nat) : Nat → Nat → List Nat
  | 0, _ => []
  | n + 1, curr => curr :: adminSlots sqDepth n (if curr + 1 = sqDepth then 0 else curr + 1)

def isAbort (v : NvmevDev) (slot : Nat) : Bool :=
  match v.sqEntry slot with
  | .ok cmd => decide (adminOpcode cmd.opcode = .abortCmd)
  | .error _ => false

def completionsDue (v : NvmevDev) : Nat :=
  match v.adminQ with
  | none => 0
  | some queue =>
    if v.dbs 0 = v.oldDbs 0 then 0
    else (adminSlots queue.sqDepth (walk queue.sqDepth (v.oldDbs 0) (v.dbs 0)) (v.oldDbs 0)).countP
      fun slot => !isAbort v slot

/-- A call of `nvmev_proc_dbs` that takes the device from `v` to `v'`. -/
def AdminLog.dbs (log : AdminLog) (v v' : NvmevDev) : AdminLog :=
  { log with posted := log.posted + completionsDue v, sqDb := v.dbs 0, cqDb := v'.dbs 1 }

def cqDepthOf (v : NvmevDev) : Nat :=
  match v.adminQ with
  | none => 0
  | some queue => queue.cqDepth

structure Booted (b : Bars) : Prop where
  adminQ : b.adm.adminQ = none
  bar : b.bar = ⟨0, 0, 0, 0, false, 0⟩
  oldBar : b.oldBar = ⟨0, 0, 0, 0⟩
  sqDb : b.adm.oldDbs 0 = 0
  cqDb : b.adm.oldDbs 1 = 0

/-- What the host does, and the dispatcher to the other queues: the registers take any values but
those of the device, memory and doorbells any values at all. -/
structure HostStep (b b' : Bars) : Prop where
  adminQ : b'.adm.adminQ = b.adm.adminQ
  sqDb : b'.adm.oldDbs 0 = b.adm.oldDbs 0
  cqDb : b'.adm.oldDbs 1 = b.adm.oldDbs 1
  oldBar : b'.oldBar = b.oldBar
  rdy : b'.bar.rdy = b.bar.rdy
  shst : b'.bar.shst = b.bar.shst

/-- A call of `nvmev_proc_bars`, with the history after it. -/
structure BarCall where
  before : Bars
  after : Bars
  log : AdminLog

/-- Any interleaving, with the states passed through and the calls of `nvmev_proc_bars`. -/
inductive BarRun : List Bars → List BarCall → AdminLog → Bars → Prop where
  | boot {b : Bars} : Booted b → BarRun [b] [] .start b
  | host {visited : List Bars} {calls : List BarCall} {log : AdminLog} {b b' : Bars} :
    BarRun visited calls log b → HostStep b b' → BarRun (visited ++ [b']) calls log b'
  | bars {visited : List Bars} {calls : List BarCall} {log : AdminLog} {b b' : Bars} :
    BarRun visited calls log b → nvmevProcBars b = .ok b' →
    BarRun (visited ++ [b']) (calls ++ [⟨b, b', log.bars (cqDepthOf b.adm) (barChange b)⟩])
      (log.bars (cqDepthOf b.adm) (barChange b)) b'
  | dbs {visited : List Bars} {calls : List BarCall} {log : AdminLog} {b : Bars} {adm : NvmevDev} :
    BarRun visited calls log b → procDbsAdmin b.adm = .ok adm →
    BarRun (visited ++ [{ b with adm := adm }]) calls (log.dbs b.adm adm) { b with adm := adm }

variable {visited : List Bars} {calls : List BarCall} {log : AdminLog} {b b' : Bars}

theorem BarRun.mem_visited (h : BarRun visited calls log b) : b ∈ visited := by
  cases h with
  | boot => exact List.mem_singleton_self b
  | host => exact List.mem_append_right _ (List.mem_singleton_self _)
  | bars => exact List.mem_append_right _ (List.mem_singleton_self _)
  | dbs => exact List.mem_append_right _ (List.mem_singleton_self _)

structure AdminMoved (queue : AdminQueue) (m : Nat) (v' : NvmevDev) (queue' : AdminQueue) : Prop where
  adminQ : v'.adminQ = some queue'
  sqDepth : queue'.sqDepth = queue.sqDepth
  cqDepth : queue'.cqDepth = queue.cqDepth
  nvmeSq : queue'.nvmeSq = queue.nvmeSq
  nvmeCq : queue'.nvmeCq = queue.nvmeCq
  cursor : queue'.cursor = queue.cursor.after queue.cqDepth m

theorem isAbort_eq {v : NvmevDev} {slot : Nat} {cmd : NvmeAdminCommand} (h : v.sqEntry slot = .ok cmd) :
    isAbort v slot = decide (adminOpcode cmd.opcode = .abortCmd) := by
  unfold isAbort
  rw [h]

theorem procAdminLoop_moved {sqDepth n curr : Nat} {v v' : NvmevDev} {queue : AdminQueue}
    (hq : v.adminQ = some queue) (hhead : queue.cqHead < queue.cqDepth)
    (h : procAdminLoop sqDepth n curr v = .ok v') :
    ∃ queue', AdminMoved queue ((adminSlots sqDepth n curr).countP fun slot => !isAbort v slot) v' queue' := by
  induction n generalizing curr v queue with
  | zero =>
    cases h
    exact ⟨queue, hq, rfl, rfl, rfl, rfl, (Cursor.after_zero (c := queue.cursor) hhead).symm⟩
  | succ n ih =>
    rw [procAdminLoop] at h
    obtain ⟨v₁, h₁, hrest⟩ := bind_eq_ok.mp h
    obtain ⟨queue₁, cmd, hq₁, hcmd, ⟨habort, rfl⟩ | ⟨hno, -, addr, cqe, -, p⟩⟩ := procAdminReq_cases h₁
    · obtain ⟨queue', hm⟩ := ih hq hhead hrest
      refine ⟨queue', ?_⟩
      rw [adminSlots, List.countP_cons_of_neg (by simp [isAbort_eq hcmd, habort])]
      exact hm
    · obtain rfl := Option.some.inj (hq.symm.trans hq₁)
      obtain ⟨hsq, hcq, hsqPages, hcqPages⟩ := queue.advance_shape
      have hpos : 0 < queue.cqDepth := Nat.zero_lt_of_lt hhead
      have hcur := queue.advance_cursor
      have hhead₁ : queue.advance.cqHead < queue.advance.cqDepth := by
        rw [hcq]
        have hlt := Cursor.slot_after_lt hpos queue.cursor 1
        rw [← Cursor.next_after hpos, Cursor.after_zero (c := queue.cursor) hhead, ← hcur] at hlt
        exact hlt
      obtain ⟨queue', hm⟩ := ih p.adminQ hhead₁ hrest
      refine ⟨queue', hm.adminQ, hm.sqDepth.trans hsq, hm.cqDepth.trans hcq, hm.nvmeSq.trans hsqPages,
        hm.nvmeCq.trans hcqPages, ?_⟩
      have hsame : ∀ slot, isAbort v₁ slot = isAbort v slot := by
        intro slot
        unfold isAbort
        rw [p.sqEntry_eq hq]
      rw [adminSlots, List.countP_cons_of_pos (by simp [isAbort_eq hcmd, hno]), hm.cursor, hcq, hcur,
        Cursor.after_next hpos hhead]
      simp only [hsame]

/-- The admin queue's part of `nvmev_proc_dbs`. -/
theorem procDbsAdmin_moved {v v' : NvmevDev} (h : procDbsAdmin v = .ok v') :
    v'.oldDbs 0 = v.dbs 0 ∧ v'.oldDbs 1 = v'.dbs 1 ∧ (v.adminQ = none → v'.adminQ = none) ∧
    ∀ queue, v.adminQ = some queue → queue.cqHead < queue.cqDepth →
      ∃ queue', AdminMoved queue (completionsDue v) v' queue' := by
  obtain ⟨v₁, h₁, h⟩ := bind_eq_ok.mp h
  cases h
  have hold : (procDbsAdminCq v₁).oldDbs 0 = v₁.oldDbs 0 := v₁.setOldDb_other _ (by decide)
  have hcq : (procDbsAdminCq v₁).oldDbs 1 = v₁.dbs 1 := v₁.setOldDb_self 1 _
  refine ⟨hold.trans ?_, hcq, ?_, ?_⟩
  · unfold procDbsAdminSq at h₁
    split at h₁
    · rename_i heq
      cases h₁
      exact heq.symm
    · obtain ⟨v₂, -, h₁⟩ := bind_eq_ok.mp h₁
      cases h₁
      exact v₂.setOldDb_self 0 _
  · intro hnone
    unfold procDbsAdminSq at h₁
    split at h₁
    · cases h₁
      exact hnone
    · obtain ⟨v₂, h₂, -⟩ := bind_eq_ok.mp h₁
      obtain ⟨queue, hqueue, -⟩ := bind_eq_ok.mp h₂
      rw [NvmevDev.queue_eq hqueue] at hnone
      cases hnone
  · intro queue hq hhead
    unfold procDbsAdminSq at h₁
    unfold completionsDue
    rw [hq]
    dsimp only
    split at h₁
    · rename_i heq
      cases h₁
      rw [if_pos heq]
      exact ⟨queue, hq, rfl, rfl, rfl, rfl, (Cursor.after_zero (c := queue.cursor) hhead).symm⟩
    · rename_i hne
      rw [if_neg hne]
      obtain ⟨v₂, h₂, h₁⟩ := bind_eq_ok.mp h₁
      cases h₁
      obtain ⟨queue₁, hqueue, hloop⟩ := bind_eq_ok.mp h₂
      obtain rfl := Option.some.inj (hq.symm.trans (NvmevDev.queue_eq hqueue))
      obtain ⟨queue', hm⟩ := procAdminLoop_moved hq hhead hloop
      exact ⟨queue', hm.adminQ, hm.sqDepth, hm.cqDepth, hm.nvmeSq, hm.nvmeCq, hm.cursor⟩

structure Covered (queue : AdminQueue) : Prop where
  sq : ∀ p, queue.nvmeSq = some p → queue.sqDepth ≤ p.numPages * nrSqePerPage
  cq : ∀ p, queue.nvmeCq = some p → queue.cqDepth ≤ p.numPages * nrCqePerPage

/-- A change of AQA gives depths for which the arrays that are already there have enough pages. -/
def AqaFits (b : Bars) : Prop :=
  barChange b = .aqa → ∀ queue, b.adm.adminQ = some queue →
    (∀ p, queue.nvmeSq = some p → b.bar.asqs + 1 ≤ p.numPages * nrSqePerPage) ∧
    (∀ p, queue.nvmeCq = some p → b.bar.acqs + 1 ≤ p.numPages * nrCqePerPage)

theorem queuePages_cover {depth entrySize perPage : Nat} (base : Nat) (hsize : entrySize * perPage = pageSize)
    (hdepth : depth ≤ 2^12) (hentry : entrySize ≤ 2^12) :
    depth ≤ (queuePages base depth entrySize).numPages * perPage := by
  have hfits : depth * entrySize + pageSize - 1 < 2^64 := by
    have := Nat.mul_le_mul hdepth hentry
    unfold pageSize
    omega
  unfold queuePages divRoundUp u64
  rw [Nat.mod_eq_of_lt hfits]
  have hpage : pageSize = 4096 := rfl
  have hdiv := Nat.div_add_mod (depth * entrySize + pageSize - 1) pageSize
  have hmod := Nat.mod_lt (depth * entrySize + pageSize - 1) (show 0 < pageSize by decide)
  -- a page holds `perPage` entries, so the pages hold at least the bytes of all entries
  have hbytes : depth * entrySize ≤
      (depth * entrySize + pageSize - 1) / pageSize * perPage * entrySize := by
    rw [Nat.mul_assoc, Nat.mul_comm perPage, hsize, Nat.mul_comm _ pageSize]
    omega
  have hpos : 0 < entrySize := by
    rcases Nat.eq_zero_or_pos entrySize with h | h
    · subst h
      rw [Nat.zero_mul] at hsize
      cases hsize
    · exact h
  exact Nat.le_of_mul_le_mul_right hbytes hpos

def QueueCovered (v : NvmevDev) : Prop := ∀ queue, v.adminQ = some queue → Covered queue

/-- The arrays that are there reach to the depths, and every entry below them is found. -/
structure ArraysReach (queue : AdminQueue) : Prop where
  covered : Covered queue
  sqEntry : ∀ p, queue.nvmeSq = some p → ∀ i < queue.sqDepth, ∃ addr, sqEntryAddr queue i = .ok addr
  cqEntry : ∀ p, queue.nvmeCq = some p → ∀ i < queue.cqDepth, ∃ addr, cqEntryAddr queue i = .ok addr

theorem arraysReach_iff {queue : AdminQueue} : ArraysReach queue ↔ Covered queue := by
  have hfind : ∀ (pages : Option QueuePages) (p : QueuePages) (perPage i : Nat), pages = some p →
      i < p.numPages * perPage → ∃ addr, pageEntry pages perPage i = .ok addr := by
    intro pages p perPage i hp hi
    subst hp
    exact ⟨_, if_pos (Nat.div_lt_of_lt_mul (by rwa [Nat.mul_comm]))⟩
  constructor
  · exact ArraysReach.covered
  · intro k
    refine ⟨k, ?_, ?_⟩
    · intro p hp i hi
      exact hfind _ p _ i hp (Nat.lt_of_lt_of_le hi (k.sq p hp))
    · intro p hp i hi
      exact hfind _ p _ i hp (Nat.lt_of_lt_of_le hi (k.cq p hp))

theorem AdminMoved.covered {queue queue' : AdminQueue} {m : Nat} {v' : NvmevDev}
    (h : AdminMoved queue m v' queue') (k : Covered queue) : Covered queue' := by
  constructor
  · intro p hp
    rw [h.sqDepth]
    exact k.sq p (h.nvmeSq ▸ hp)
  · intro p hp
    rw [h.cqDepth]
    exact k.cq p (h.nvmeCq ▸ hp)

theorem CtrlRegs.depth_le (r : CtrlRegs) : r.asqs + 1 ≤ 2^12 ∧ r.acqs + 1 ≤ 2^12 :=
  ⟨Nat.mod_lt _ (by decide), Nat.mod_lt _ (by decide)⟩

/-- A call from a covered state leads to one exactly when a change of AQA fits. -/
theorem BarStep.covered_iff {change : BarChange} (h : BarStep b b' change) (hchange : barChange b = change)
    (k : QueueCovered b.adm) : QueueCovered b'.adm ↔ AqaFits b := by
  obtain ⟨hsqDepth, hcqDepth⟩ := b.bar.depth_le
  -- the changes other than one of AQA keep the queue covered
  have hother : change ≠ .aqa → QueueCovered b'.adm → (QueueCovered b'.adm ↔ AqaFits b) :=
    fun hne hcov => ⟨fun _ haqa => absurd (hchange.symm.trans haqa) hne, fun _ => hcov⟩
  cases h with
  | aqa hq =>
    constructor
    · intro hcov _ queue hqueue
      have hnew := hcov _ hq
      rw [hqueue] at hnew
      exact ⟨hnew.sq, hnew.cq⟩
    · intro hfits queue' hqueue'
      obtain rfl := Option.some.inj (hq.symm.trans hqueue')
      cases hold : b.adm.adminQ with
      | none => exact ⟨(fun p hp => by cases hp), (fun p hp => by cases hp)⟩
      | some queue =>
        obtain ⟨hsq, hcq⟩ := hfits hchange queue hold
        exact ⟨hsq, hcq⟩
  | asq queue hqueue hq =>
    refine hother (by decide) ?_
    intro queue' hqueue'
    obtain rfl := Option.some.inj (hq.symm.trans hqueue')
    refine ⟨?_, (k queue hqueue).cq⟩
    intro p hp
    obtain rfl := Option.some.inj hp
    exact queuePages_cover _ rfl hsqDepth (by decide)
  | acq queue hqueue hq =>
    refine hother (by decide) ?_
    intro queue' hqueue'
    obtain rfl := Option.some.inj (hq.symm.trans hqueue')
    refine ⟨(k queue hqueue).sq, ?_⟩
    intro p hp
    obtain rfl := Option.some.inj hp
    exact queuePages_cover _ rfl hcqDepth (by decide)
  | shutdown queue hqueue hq =>
    refine hother (by decide) ?_
    intro queue' hqueue'
    obtain rfl := Option.some.inj (hq.symm.trans hqueue')
    exact ⟨(k queue hqueue).sq, (k queue hqueue).cq⟩
  | cc hadm =>
    refine hother (by decide) ?_
    rw [hadm]
    exact k
  | nothing hb =>
    refine hother (by decide) ?_
    rw [hb]
    exact k

/-- The cursor after `laps` wraps. -/
def lapStart (laps : Nat) : Cursor := ⟨0, decide (laps % 2 = 0)⟩

theorem lapStart_phase (laps n posted : Nat) :
    ((lapStart laps).after n posted).phase = decide ((laps + posted / n) % 2 = 0) := by
  unfold lapStart Cursor.after phaseAt
  dsimp only
  rw [Nat.zero_add, Nat.add_mod]
  rcases Nat.mod_two_eq_zero_or_one laps with h | h
  · rcases Nat.mod_two_eq_zero_or_one (posted / n) with h' | h'
    · simp [h, h']
    · simp [h, h']
  · rcases Nat.mod_two_eq_zero_or_one (posted / n) with h' | h'
    · simp [h, h']
    · simp [h, h']

/-- Head, phase and the doorbells seen last are what the history makes of them. -/
structure LogInv (log : AdminLog) (v : NvmevDev) : Prop where
  queue : ∀ queue, v.adminQ = some queue → 0 < queue.cqDepth ∧
    queue.cursor = (lapStart log.laps).after queue.cqDepth log.posted
  sqDb : v.oldDbs 0 = log.sqDb
  cqDb : v.oldDbs 1 = log.cqDb

theorem LogInv.head_lt {v : NvmevDev} (inv : LogInv log v) {queue : AdminQueue} (hq : v.adminQ = some queue) :
    queue.cqHead < queue.cqDepth := by
  obtain ⟨hpos, hcur⟩ := inv.queue queue hq
  have hlt := Cursor.slot_after_lt hpos (lapStart log.laps) log.posted
  rw [← hcur] at hlt
  exact hlt

/-- A head that is put back starts the next series of completions, with the phase it has. -/
theorem LogInv.put_back {v : NvmevDev} (inv : LogInv log v) {queue : AdminQueue} (hq : v.adminQ = some queue)
    {depth : Nat} (hpos : 0 < depth) : (⟨0, queue.phase⟩ : Cursor) =
      (lapStart (log.laps + log.posted / queue.cqDepth)).after depth 0 := by
  obtain ⟨-, hcur⟩ := inv.queue queue hq
  have hphase : queue.phase = _ := congrArg Cursor.phase hcur
  rw [Cursor.after_zero (c := lapStart _) hpos, hphase, lapStart_phase]
  rfl

theorem BarStep.logInv {change : BarChange} (h : BarStep b b' change) (inv : LogInv log b.adm) :
    LogInv (log.bars (cqDepthOf b.adm) change) b'.adm := by
  cases h with
  | aqa hq hsq hcq =>
    refine ⟨?_, hsq, hcq⟩
    intro queue' hqueue'
    obtain rfl := Option.some.inj (hq.symm.trans hqueue')
    exact ⟨Nat.succ_pos _, (Cursor.after_zero (c := lapStart 0) (Nat.succ_pos _)).symm⟩
  | asq queue hqueue hq hsq hcq =>
    refine ⟨?_, hsq, hcq.trans inv.cqDb⟩
    intro queue' hqueue'
    obtain rfl := Option.some.inj (hq.symm.trans hqueue')
    exact inv.queue queue hqueue
  | acq queue hqueue hq hsq hcq =>
    refine ⟨?_, hsq.trans inv.sqDb, hcq⟩
    intro queue' hqueue'
    obtain rfl := Option.some.inj (hq.symm.trans hqueue')
    refine ⟨Nat.succ_pos _, ?_⟩
    unfold cqDepthOf
    rw [hqueue]
    exact inv.put_back hqueue (Nat.succ_pos _)
  | shutdown queue hqueue hq hsq hcq =>
    refine ⟨?_, hsq, hcq⟩
    intro queue' hqueue'
    obtain rfl := Option.some.inj (hq.symm.trans hqueue')
    refine ⟨(inv.queue queue hqueue).1, ?_⟩
    unfold cqDepthOf
    rw [hqueue]
    exact inv.put_back hqueue (inv.queue queue hqueue).1
  | cc hadm =>
    rw [hadm]
    exact inv
  | nothing hb =>
    rw [hb]
    exact inv

theorem LogInv.dbs {v v' : NvmevDev} (inv : LogInv log v) (h : procDbsAdmin v = .ok v') :
    LogInv (log.dbs v v') v' := by
  obtain ⟨hsq, hcq, hnone, hmoved⟩ := procDbsAdmin_moved h
  refine ⟨?_, hsq, hcq⟩
  intro queue' hqueue'
  cases hq : v.adminQ with
  | none =>
    rw [hnone hq] at hqueue'
    cases hqueue'
  | some queue =>
    obtain ⟨queue₁, hm⟩ := hmoved queue hq (inv.head_lt hq)
    obtain rfl := Option.some.inj (hqueue'.symm.trans hm.adminQ)
    obtain ⟨hpos, hcur⟩ := inv.queue queue hq
    refine ⟨hm.cqDepth ▸ hpos, ?_⟩
    rw [hm.cursor, hm.cqDepth, hcur, Cursor.after_after hpos]
    rfl

theorem BarRun.logInv (h : BarRun visited calls log b) : LogInv log b.adm := by
  induction h with
  | boot hb =>
    refine ⟨?_, hb.sqDb, hb.cqDb⟩
    intro queue hq
    rw [hb.adminQ] at hq
    cases hq
  | host _ hstep ih =>
    refine ⟨?_, hstep.sqDb.trans ih.sqDb, hstep.cqDb.trans ih.cqDb⟩
    intro queue hq
    exact ih.queue queue (hstep.adminQ ▸ hq)
  | bars _ hstep ih => exact (nvmevProcBars_step hstep).logInv ih
  | dbs _ hstep ih => exact ih.dbs hstep

/-- All states of a run are covered exactly when every change of AQA in it fits. -/
theorem BarRun.covered_iff (h : BarRun visited calls log b) :
    (∀ b ∈ visited, QueueCovered b.adm) ↔ ∀ c ∈ calls, AqaFits c.before := by
  induction h with
  | boot hb =>
    constructor
    · exact fun _ c hc => absurd hc List.not_mem_nil
    · intro _ b' hb' queue hq
      rw [List.mem_singleton.mp hb', hb.adminQ] at hq
      cases hq
  | @host visited calls log b b' hrun hstep ih =>
    simp only [List.forall_mem_append, List.forall_mem_singleton]
    rw [← ih]
    refine ⟨And.left, fun hall => ⟨hall, ?_⟩⟩
    intro queue hq
    exact hall b hrun.mem_visited queue (hstep.adminQ ▸ hq)
  | @bars visited calls log b b' hrun hstep ih =>
    simp only [List.forall_mem_append, List.forall_mem_singleton]
    rw [← ih]
    have hiff : (∀ b ∈ visited, QueueCovered b.adm) → (QueueCovered b'.adm ↔ AqaFits b) :=
      fun hall => (nvmevProcBars_step hstep).covered_iff rfl (hall b hrun.mem_visited)
    exact and_congr_right hiff
  | @dbs visited calls log b adm hrun hstep ih =>
    simp only [List.forall_mem_append, List.forall_mem_singleton]
    rw [← ih]
    refine ⟨And.left, fun hall => ⟨hall, ?_⟩⟩
    intro queue' hq'
    obtain ⟨-, -, hnone, hmoved⟩ := procDbsAdmin_moved hstep
    cases hq : b.adm.adminQ with
    | none =>
      rw [hnone hq] at hq'
      cases hq'
    | some queue =>
      obtain ⟨queue₁, hm⟩ := hmoved queue hq (hrun.logInv.head_lt hq)
      obtain rfl := Option.some.inj (hm.adminQ.symm.trans hq')
      exact hm.covered (hall b hrun.mem_visited queue hq)

/-- In any run all entries below the depths are inside the page arrays, in every state passed through,
exactly when every change of AQA that has been taken over fits the arrays that were there. -/
theorem admin_arrays_reach_iff (h : BarRun visited calls log b) :
    (∀ b ∈ visited, ∀ queue, b.adm.adminQ = some queue → ArraysReach queue) ↔
      ∀ c ∈ calls, AqaFits c.before := by
  simp only [arraysReach_iff]
  exact h.covered_iff

/-- The host writes the registers. -/
def Bars.write (b : Bars) (aqa asq acq cc : Nat) : Bars :=
  { b with bar := { b.bar with aqa := aqa, asq := asq, acq := acq, cc := cc } }

theorem Bars.write_step (b : Bars) (aqa asq acq cc : Nat) : HostStep b (b.write aqa asq acq cc) :=
  ⟨rfl, rfl, rfl, rfl, rfl, rfl⟩

/-- A loaded module, with the same command in all slots of the host's memory. -/
def bootBars (cmd : NvmeAdminCommand) : Bars :=
  ⟨{ adminDev adminQueue2 cmd with adminQ := none }, ⟨0, 0, 0, 0, false, 0⟩, ⟨0, 0, 0, 0⟩⟩

theorem bootBars_booted (cmd : NvmeAdminCommand) : Booted (bootBars cmd) := ⟨rfl, rfl, rfl, rfl, rfl⟩

/-- Queues of 2 entries are set up, then AQA is written with 4096 and 2: one page is there for 4096
submission entries. -/
theorem aqa_outgrows_array : ∃ visited calls log b, BarRun visited calls log b ∧
    (b.adm.adminQ.map fun q => (q.sqDepth, q.nvmeSq)) = some (4096, some ⟨16, 1⟩) ∧
    ¬ ∀ b ∈ visited, ∀ queue, b.adm.adminQ = some queue → ArraysReach queue := by
  obtain ⟨b, hrun, hp⟩ := exists_of_check (show check (fun (b : Bars) =>
      decide ((b.adm.adminQ.map fun q => (q.sqDepth, q.nvmeSq)) = some (4096, some ⟨16, 1⟩))) (do
    let b ← nvmevProcBars ((bootBars identifyCtrl).write 0x10001 0x10000 0x20000 0)
    let b ← nvmevProcBars b
    let b ← nvmevProcBars b
    nvmevProcBars (b.write 0x10fff 0x10000 0x20000 0)) = true by decide +kernel)
  obtain ⟨b₁, h₁, hrun⟩ := bind_eq_ok.mp hrun
  obtain ⟨b₂, h₂, hrun⟩ := bind_eq_ok.mp hrun
  obtain ⟨b₃, h₃, h₄⟩ := bind_eq_ok.mp hrun
  have hr := BarRun.boot (bootBars_booted identifyCtrl) |>.host (Bars.write_step _ _ _ _ _) |>.bars h₁
    |>.bars h₂ |>.bars h₃ |>.host (Bars.write_step _ _ _ _ _) |>.bars h₄
  have hp := of_decide_eq_true hp
  refine ⟨_, _, _, b, hr, hp, fun hall => ?_⟩
  obtain ⟨queue, hq, heq⟩ := Option.map_eq_some_iff.mp hp
  obtain ⟨hdepth, hpages⟩ := Prod.mk.inj heq
  have hle := (hall b hr.mem_visited queue hq).covered.sq _ hpages
  rw [hdepth] at hle
  exact absurd hle (by decide)

/-- The queues are set up once. -/
theorem admin_arrays_reach_once : ∃ visited calls log b, BarRun visited calls log b ∧ calls.length = 3 ∧
    ∀ b ∈ visited, ∀ queue, b.adm.adminQ = some queue → ArraysReach queue := by
  obtain ⟨b, hrun, hp⟩ := exists_of_check (show check (fun (r : Bars × Bars × Bars) =>
      decide (barChange r.1 = .asq) && decide (barChange r.2.1 = .acq)) (do
    let b₁ ← nvmevProcBars ((bootBars identifyCtrl).write 0x10001 0x10000 0x20000 0)
    let b₂ ← nvmevProcBars b₁
    let b₃ ← nvmevProcBars b₂
    return (b₁, b₂, b₃)) = true by decide +kernel)
  obtain ⟨b₁, h₁, hrun⟩ := bind_eq_ok.mp hrun
  obtain ⟨b₂, h₂, hrun⟩ := bind_eq_ok.mp hrun
  obtain ⟨b₃, h₃, hrun⟩ := bind_eq_ok.mp hrun
  cases hrun
  simp only [Bool.and_eq_true, decide_eq_true_eq] at hp
  have hr := BarRun.boot (bootBars_booted identifyCtrl) |>.host (Bars.write_step _ _ _ _ _) |>.bars h₁
    |>.bars h₂ |>.bars h₃
  refine ⟨_, _, _, b₃, hr, rfl, (admin_arrays_reach_iff hr).mpr ?_⟩
  intro c hc
  simp only [List.nil_append, List.mem_append, List.mem_singleton] at hc
  rcases hc with (rfl | rfl) | rfl
  · -- no array is there yet
    intro _ queue hq
    cases hq
  · exact fun haqa => by rw [hp.1] at haqa; cases haqa
  · exact fun haqa => by rw [hp.2] at haqa; cases haqa

end NVMeVirt
