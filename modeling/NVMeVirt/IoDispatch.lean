import NVMeVirt.IoRun

/-!
# The dispatcher

`__nvmev_proc_io` and `nvmev_proc_io_sq`. The handler behind `ns->proc_io_cmd` is a
parameter: it works on the state `σ` of the namespaces, may rewrite the submission entry,
and its calls of `schedule_internal_operation` are listed in order. `wall` and `now` are
the clock readings made for the `seq`-th command of a call.
-/

namespace NVMeVirt
set_option autoImplicit false
open Outcome Chains

/-- One call of `schedule_internal_operation` for the queue of the request. -/
structure ReleaseCall where
  nsecsTarget : Nat
  writeBuffer : Nat
  buffsToRelease : Nat
  deriving Repr, DecidableEq

structure HandlerOutcome (σ : Type) where
  accepted : Bool
  ftl : σ
  cmd : NvmeRwCommand
  ret : NvmevResult
  calls : List ReleaseCall

/-- Namespace index, state, submission entry, queue and start time. -/
abbrev ProcIoCmd (σ : Type) :=
  Nat → σ → NvmeRwCommand → Nat → Nat → NvmevResult → Except Fault (HandlerOutcome σ)

structure SqStat where
  nrDispatched : Nat
  nrDispatch : Nat
  nrInFlight : Nat
  maxNrInFlight : Nat
  totalIo : Nat
  deriving Repr, DecidableEq

structure SubmissionQueue where
  cqid : Nat
  queueSize : Nat
  sq : Nat → NvmeRwCommand
  stat : SqStat

structure Dispatcher (σ : Type) where
  io : IoDev
  ftl : σ
  sqes : Nat → Option SubmissionQueue

variable {σ : Type} (proc : ProcIoCmd σ)

def cmdIoSize (cmd : NvmeRwCommand) : Nat := (cmd.length + 1) * lbaSize

/-- The calls of `schedule_internal_operation` that the handler makes. -/
def scheduleCalls (sqid now : Nat) : List ReleaseCall → IoDev → Except Fault IoDev
  | [], dev => .ok dev
  | c :: rest, dev => do
    let dev ← scheduleInternalOperation dev sqid c.nsecsTarget c.writeBuffer c.buffsToRelease now
    scheduleCalls sqid now rest dev

/-- `none` is the C `return false`, otherwise the number of bytes. -/
def nvmevProcIo (d : Dispatcher σ) (sqid sqEntry wall now : Nat) :
    Except Fault (Dispatcher σ × Option Nat) := do
  match d.sqes sqid with
  | none => .error .badAddress
  | some sq =>
    let cmd := sq.sq sqEntry
    let o ← proc (u32 (cmd.nsid + (2^32 - 1))) d.ftl cmd sqid wall ⟨nvmeScSuccess, wall⟩
    let io ← scheduleCalls sqid now o.calls d.io
    let sq := { sq with sq := Function.update sq.sq sqEntry o.cmd }
    let d := { d with io := io, ftl := o.ftl, sqes := Function.update d.sqes sqid (some sq) }
    if o.accepted = false then return (d, none)
    let io ← enqueueIoReq d.io sqid sq.cqid sqEntry o.cmd.commandId wall now o.ret
    let io ← reclaimCompletedReqs io
    return ({ d with io := io }, some (cmdIoSize o.cmd))

/-- The counters of the queue after a dispatched command. -/
def SubmissionQueue.dispatched (sq : SubmissionQueue) (ioSize : Nat) : SubmissionQueue :=
  { sq with stat :=
    { sq.stat with
      nrDispatched := u32 (sq.stat.nrDispatched + 1)
      nrInFlight := u32 (sq.stat.nrInFlight + 1)
      totalIo := u64 (sq.stat.totalIo + ioSize) } }

/-- `max_t(int, a, b)` of two unsigned values. -/
def maxInt (a b : Nat) : Nat := if u32 (a + 2^31) < u32 (b + 2^31) then b else a

def Dispatcher.updateSq (d : Dispatcher σ) (sqid : Nat) (f : SubmissionQueue → SubmissionQueue) :
    Dispatcher σ :=
  { d with sqes := Function.update d.sqes sqid ((d.sqes sqid).map f) }

/-- The `for` loop of `nvmev_proc_io_sq` over the remaining commands; also gives the number
of commands taken. -/
def procIoLoop (sqid queueSize : Nat) (wall now : Nat → Nat) :
    Nat → Nat → Nat → Dispatcher σ → Except Fault (Dispatcher σ × Nat)
  | 0, seq, _, d => .ok (d, seq)
  | n + 1, seq, sqEntry, d => do
    match ← nvmevProcIo proc d sqid sqEntry (wall seq) (now seq) with
    | (d, none) => return (d, seq)
    | (d, some ioSize) =>
      let sqEntry := if sqEntry + 1 = queueSize then 0 else sqEntry + 1
      procIoLoop sqid queueSize wall now n (seq + 1) sqEntry (d.updateSq sqid (·.dispatched ioSize))

/-- Returns the doorbell value up to which commands have been taken. -/
def nvmevProcIoSq (d : Dispatcher σ) (sqid newDb oldDb : Nat) (wall now : Nat → Nat) :
    Except Fault (Dispatcher σ × Nat) := do
  match d.sqes sqid with
  | none => return (d, oldDb)
  | some sq =>
    let numProc := if newDb < oldDb then newDb + sq.queueSize - oldDb else newDb - oldDb
    let (d, seq) ← procIoLoop proc sqid sq.queueSize wall now numProc 0 oldDb d
    let d := d.updateSq sqid fun sq => { sq with stat :=
      { sq.stat with
        nrDispatch := u32 (sq.stat.nrDispatch + 1)
        maxNrInFlight := maxInt sq.stat.maxNrInFlight sq.stat.nrInFlight } }
    let queueSize ← divisor sq.queueSize
    return (d, (oldDb + seq) % queueSize)

/-- The assignments and target times of works to be placed one after the other. -/
abbrev Fills := List ((IoWork → IoWork) × Nat)

def placeAll (sqid : Nat) : Fills → IoDev → Except Fault IoDev
  | [], dev => .ok dev
  | (fill, t) :: rest, dev => do
    let dev ← placeWork dev sqid fill t
    placeAll sqid rest dev

def releaseFills (sqid now : Nat) (calls : List ReleaseCall) : Fills :=
  calls.map fun c => (internalWork sqid c.nsecsTarget c.writeBuffer c.buffsToRelease now, c.nsecsTarget)

theorem scheduleCalls_eq (sqid now : Nat) (calls : List ReleaseCall) (dev : IoDev) :
    scheduleCalls sqid now calls dev = placeAll sqid (releaseFills sqid now calls) dev := by
  induction calls generalizing dev with
  | nil => rfl
  | cons c rest ih =>
    have h : ∀ dev, scheduleCalls sqid now rest dev = placeAll sqid (releaseFills sqid now rest) dev := ih
    simp only [scheduleCalls, releaseFills, List.map_cons, placeAll, scheduleInternalOperation]
    congr 1
    funext dev
    exact h dev

theorem placeAll_append (sqid : Nat) (fills more : Fills) (dev : IoDev) :
    placeAll sqid (fills ++ more) dev = placeAll sqid fills dev >>= placeAll sqid more := by
  induction fills generalizing dev with
  | nil => rfl
  | cons f rest ih =>
    simp only [List.cons_append, placeAll]
    cases placeWork dev sqid f.1 f.2 with
    | error e => rfl
    | ok dev => exact ih dev

/-- An entry that holds what `fill` has set. -/
def Holds (worker : IoWorker) (e : Nat) (fill : IoWork → IoWork) : Prop :=
  ∃ w, (worker.workQueue e).data = (fill w).data

/-- The entries `placed` have been taken from the front of the free list, in order, until one
free entry was left. -/
structure PlacedAll (worker : IoWorker) (free io : List Nat) (fills : Fills) (placed : List Nat)
    (worker' : IoWorker) (free' io' : List Nat) : Prop where
  taken : free = placed ++ free'
  flight : io'.Perm (placed ++ io)
  lists : Lists worker' free' io'
  count : placed.length = min fills.length (free.length - 1)
  hold : List.Forall₂ (fun e f => Holds worker' e f.1) placed (fills.take placed.length)
  others : ∀ i, i ∉ placed → (worker'.workQueue i).data = (worker.workQueue i).data

/-- The device after a series of placements: the worker of the queue has placed what it had room
for, the others are as before. -/
structure AfterAll (dev : IoDev) (sqid : Nat) (fills : Fills) (dev' : IoDev) : Prop where
  nr : dev'.nrIoWorkers = dev.nrIoWorkers
  others : ∀ turn, turn ≠ workerOf dev sqid → dev'.ioWorkers turn = dev.ioWorkers turn
  self : ∀ free io, Lists (dev.ioWorkers (workerOf dev sqid)) free io →
    ∃ placed free' io', PlacedAll (dev.ioWorkers (workerOf dev sqid)) free io fills placed
      (dev'.ioWorkers (workerOf dev sqid)) free' io'

variable {dev dev' : IoDev} {worker worker' worker₂ : IoWorker} {free io : List Nat}

theorem PlacedAll.nil (k : Lists worker free io) : PlacedAll worker free io [] [] worker free io :=
  ⟨rfl, List.Perm.refl _, k, by simp, List.Forall₂.nil, fun _ _ => rfl⟩

theorem PlacedAll.cons {fill : IoWork → IoWork} {t e : Nat} {fills : Fills}
    {placed free₁ io₁ free₂ io₂ : List Nat} (k : Lists worker free io) (hlen : 2 ≤ free.length)
    (h : Placed worker fill free io e worker' free₁ io₁)
    (hs : PlacedAll worker' free₁ io₁ fills placed worker₂ free₂ io₂) :
    PlacedAll worker free io ((fill, t) :: fills) (e :: placed) worker₂ free₂ io₂ := by
  have hnodup := k.nodup
  have hfree : free = e :: placed ++ free₂ := by
    rw [h.free, hs.taken]
    rfl
  have he : e ∉ placed := by
    rw [hfree] at hnodup
    have hn := (List.nodup_cons.mp (List.Nodup.of_append_left (List.Nodup.of_append_left hnodup))).1
    exact hn
  refine ⟨hfree, ?_, hs.lists, ?_, ?_, ?_⟩
  · have h₁ : (placed ++ io₁).Perm (placed ++ e :: io) := List.Perm.append_left placed h.io
    exact hs.flight.trans (h₁.trans List.perm_middle)
  · rw [h.free] at hlen ⊢
    simp only [List.length_cons] at hlen ⊢
    rw [hs.count]
    omega
  · refine List.Forall₂.cons ⟨worker.workQueue e, ?_⟩ hs.hold
    rw [hs.others e he, h.entry]
  · intro i hi
    rw [hs.others i (List.not_mem_of_not_mem_cons hi), h.others i (List.ne_of_not_mem_cons hi)]

theorem workerOf_congr (h : dev'.nrIoWorkers = dev.nrIoWorkers) (sqid : Nat) :
    workerOf dev' sqid = workerOf dev sqid := by
  unfold workerOf
  rw [h]

/-- The lists of all workers survive, and the works find their places. -/
theorem placeAll_spec (hn : 0 < dev.nrIoWorkers) (k : QueuesOk dev) (sqid : Nat) {fills : Fills}
    (hfills : ∀ f ∈ fills, Unlinks f.1) :
    ∃ dev', placeAll sqid fills dev = .ok dev' ∧ QueuesOk dev' ∧ AfterAll dev sqid fills dev' := by
  induction fills generalizing dev with
  | nil => exact ⟨dev, rfl, k, rfl, fun _ _ => rfl, fun free io kl => ⟨[], free, io, PlacedAll.nil kl⟩⟩
  | cons f fills ih =>
    obtain ⟨fill, t⟩ := f
    have hfill : Unlinks fill := hfills _ List.mem_cons_self
    obtain ⟨dev₁, h₁, hnr, hothers, hself⟩ := placeWork_spec hn k sqid hfill t
    have k₁ := placeWork_keeps k hfill h₁
    obtain ⟨dev₂, h₂, k₂, after⟩ :=
      ih (by rw [hnr]; exact hn) k₁ (fun f hf => hfills f (List.mem_cons_of_mem _ hf))
    have hw := workerOf_congr hnr sqid
    refine ⟨dev₂, ?_, k₂, after.nr.trans hnr, ?_, ?_⟩
    · rw [placeAll, h₁, ok_bind, h₂]
    · intro turn hturn
      rw [after.others turn (by rw [hw]; exact hturn), hothers turn hturn]
    · intro free io kl
      have hrest := after.self
      rw [hw] at hrest
      rcases hself free io kl with ⟨hlen, rfl⟩ | ⟨hlen, e, free₁, io₁, hp⟩
      · obtain ⟨placed, free₂, io₂, hs⟩ := hrest free io kl
        have hplaced : placed = [] := by
          have hc := hs.count
          rw [hlen] at hc
          exact List.eq_nil_of_length_eq_zero (by omega)
        subst hplaced
        refine ⟨[], free₂, io₂, hs.taken, hs.flight, hs.lists, ?_, List.Forall₂.nil, hs.others⟩
        simp [hlen]
      · obtain ⟨placed, free₂, io₂, hs⟩ := hrest free₁ io₁ hp.lists
        exact ⟨e :: placed, free₂, io₂, PlacedAll.cons kl hlen hp hs⟩

/-- The chain from `io_seq` by `next`. -/
def inFlight (worker : IoWorker) : List Nat := walk worker.next noEntry nrMaxParallelIo worker.ioSeq

/-- The chain from `free_seq` by `next`. -/
def freeEntries (worker : IoWorker) : List Nat := walk worker.next noEntry nrMaxParallelIo worker.freeSeq

theorem Lists.inFlight_eq (k : Lists worker free io) : inFlight worker = io := by
  have h := k.length
  exact k.ioPath.walk_eq k.noEntry_io (by omega)

theorem Lists.freeEntries_eq (k : Lists worker free io) : freeEntries worker = free := by
  have h := k.length
  exact k.freePath.walk_eq k.noEntry_free (by omega)

inductive Load where
  | request (sqid cqid sqEntry commandId : Nat)
  | release (sqid nsecsTarget writeBuffer buffsToRelease : Nat)
  deriving Repr, DecidableEq

def Load.Carried (w : IoWork) : Load → Prop
  | .request sqid cqid sqEntry commandId => w.isInternal = false ∧ w.sqid = sqid ∧ w.cqid = cqid ∧
      w.sqEntry = sqEntry ∧ w.commandId = commandId
  | .release sqid nsecsTarget writeBuffer buffsToRelease => w.isInternal = true ∧ w.sqid = sqid ∧
      w.nsecsTarget = nsecsTarget ∧ w.writeBuffer = writeBuffer ∧ w.buffsToRelease = buffsToRelease

def Linked (before after : IoWorker) (loads : List Load) : Prop :=
  ∃ es : List Nat, es.Nodup ∧ (∀ e ∈ es, e ∉ inFlight before ∧ e ∈ inFlight after) ∧
    (∀ e ∈ inFlight after, e ∈ es ∨ e ∈ inFlight before) ∧
    List.Forall₂ (fun e load => load.Carried (after.workQueue e)) es loads

def loadsOf (sqid cqid sqEntry : Nat) (o : HandlerOutcome σ) : List Load :=
  o.calls.map (fun c => .release sqid c.nsecsTarget c.writeBuffer c.buffsToRelease) ++
    if o.accepted then [.request sqid cqid sqEntry o.cmd.commandId] else []

def fillsOf (sqid cqid sqEntry wall now : Nat) (o : HandlerOutcome σ) : Fills :=
  releaseFills sqid now o.calls ++ if o.accepted then
    [(requestWork sqid cqid sqEntry o.cmd.commandId wall now o.ret, o.ret.nsecsTarget)] else []

def handled (d : Dispatcher σ) (sq : SubmissionQueue) (sqid sqEntry wall : Nat) :
    Except Fault (HandlerOutcome σ) :=
  proc (u32 ((sq.sq sqEntry).nsid + (2^32 - 1))) d.ftl (sq.sq sqEntry) sqid wall ⟨nvmeScSuccess, wall⟩

/-- Processing the command in the slot links one entry for each work. -/
def DropsNothing (d : Dispatcher σ) (sqid sqEntry wall now : Nat) : Prop :=
  ∀ sq o d' size, d.sqes sqid = some sq → handled proc d sq sqid sqEntry wall = .ok o →
    nvmevProcIo proc d sqid sqEntry wall now = .ok (d', size) →
    Linked (d.io.ioWorkers (workerOf d.io sqid)) (d'.io.ioWorkers (workerOf d.io sqid))
      (loadsOf sqid sq.cqid sqEntry o)

/-- The worker has an entry for each work, and one more. -/
def Room (d : Dispatcher σ) (sqid sqEntry wall : Nat) : Prop :=
  ∀ sq o, d.sqes sqid = some sq → handled proc d sq sqid sqEntry wall = .ok o →
    (loadsOf sqid sq.cqid sqEntry o).length < (freeEntries (d.io.ioWorkers (workerOf d.io sqid))).length

theorem fillsOf_unlinks (sqid cqid sqEntry wall now : Nat) (o : HandlerOutcome σ) :
    ∀ f ∈ fillsOf sqid cqid sqEntry wall now o, Unlinks f.1 := by
  intro f hf
  rcases List.mem_append.mp hf with hf | hf
  · obtain ⟨c, -, rfl⟩ := List.mem_map.mp hf
    exact internalWork_unlinks _ _ _ _ _
  · split at hf
    · obtain rfl := List.mem_singleton.mp hf
      exact requestWork_unlinks _ _ _ _ _ _ _
    · exact absurd hf List.not_mem_nil

theorem fillsOf_carried (sqid cqid sqEntry wall now : Nat) (o : HandlerOutcome σ) :
    List.Forall₂ (fun (f : (IoWork → IoWork) × Nat) load => ∀ w w' : IoWork, w'.data = (f.1 w).data →
      load.Carried w' ∧ w'.isCompleted = false)
      (fillsOf sqid cqid sqEntry wall now o) (loadsOf sqid cqid sqEntry o) := by
  unfold fillsOf loadsOf releaseFills
  refine List.rel_append ?_ ?_
  · rw [List.forall₂_map_left_iff, List.forall₂_map_right_iff]
    refine List.forall₂_same.mpr ?_
    intro c _ w w' h
    simp only [IoWork.data, internalWork, IoWork.mk.injEq] at h
    obtain ⟨hs, _, _, _, _, ht, _, _, hc, _, _, _, hi, hwb, hbr, _, _⟩ := h
    exact ⟨⟨hi, hs, ht, hwb, hbr⟩, hc⟩
  · split
    · refine List.Forall₂.cons ?_ List.Forall₂.nil
      intro w w' h
      simp only [IoWork.data, requestWork, IoWork.mk.injEq] at h
      obtain ⟨hs, hcq, he, hid, _, _, _, _, hc, _, _, _, hi, _⟩ := h
      exact ⟨⟨hi, hs, hcq, he, hid⟩, hc⟩
    · exact List.Forall₂.nil

/-- The dispatcher's steps on one command: the works are placed, then completed entries go. -/
theorem nvmevProcIo_cases {proc : ProcIoCmd σ} {d d' : Dispatcher σ} {sqid sqEntry wall now : Nat}
    {size : Option Nat} (h : nvmevProcIo proc d sqid sqEntry wall now = .ok (d', size)) :
    ∃ sq o io, d.sqes sqid = some sq ∧ handled proc d sq sqid sqEntry wall = .ok o ∧
      placeAll sqid (fillsOf sqid sq.cqid sqEntry wall now o) d.io = .ok io ∧
      (d'.io = io ∨ reclaimCompletedReqs io = .ok d'.io) := by
  unfold nvmevProcIo at h
  cases hsq : d.sqes sqid with
  | none =>
    rw [hsq] at h
    cases h
  | some sq =>
    rw [hsq] at h
    obtain ⟨o, ho, h⟩ := bind_eq_ok.mp h
    obtain ⟨io, hio, h⟩ := bind_eq_ok.mp h
    rw [scheduleCalls_eq] at hio
    cases hacc : o.accepted with
    | false =>
      rw [hacc, if_pos rfl] at h
      cases h
      refine ⟨sq, o, io, rfl, ho, ?_, Or.inl rfl⟩
      simp only [fillsOf, hacc, Bool.false_eq_true, if_false, List.append_nil]
      exact hio
    | true =>
      rw [hacc, if_neg (by simp)] at h
      obtain ⟨io₁, hio₁, h⟩ := bind_eq_ok.mp h
      obtain ⟨io₂, hio₂, h⟩ := bind_eq_ok.mp h
      cases h
      refine ⟨sq, o, io₁, rfl, ho, ?_, Or.inr hio₂⟩
      simp only [fillsOf, hacc, if_true]
      rw [placeAll_append, hio, ok_bind, placeAll]
      have hone : ∀ dev : IoDev, placeAll sqid [] dev = .ok dev := fun _ => rfl
      rw [show placeWork io sqid (requestWork sqid sq.cqid sqEntry o.cmd.commandId wall now o.ret)
        o.ret.nsecsTarget = .ok io₁ from hio₁, ok_bind, hone]

/-- After reclaim a worker has some of its entries in flight left, among them all that are not
completed. -/
structure Left (worker : IoWorker) (io : List Nat) (worker' : IoWorker) (left : List Nat) : Prop where
  flight : inFlight worker' = left
  sub : left ⊆ io
  pending : ∀ e ∈ io, (worker.workQueue e).isCompleted = false → e ∈ left
  data : ∀ i, (worker'.workQueue i).data = (worker.workQueue i).data

theorem Left.refl (k : Lists worker free io) : Left worker io worker io :=
  ⟨k.inFlight_eq, List.Subset.refl io, fun _ he _ => he, fun _ => rfl⟩

theorem Reclaimed.left {done left : List Nat} (h : Reclaimed worker free done left worker')
    (hio : io = done ++ left) : Left worker io worker' left := by
  refine ⟨h.lists.inFlight_eq, ?_, ?_, h.data⟩
  · rw [hio]
    exact List.subset_append_right done left
  · intro e he hc
    rw [hio] at he
    rcases List.mem_append.mp he with hd | hl
    · have hr := h.completed e hd
      simp [IoWork.reclaimable, hc] at hr
    · exact hl

theorem reclaim_left (k : QueuesOk dev) (h : dev' = dev ∨ reclaimCompletedReqs dev = .ok dev')
    {turn : Nat} (kl : Lists (dev.ioWorkers turn) free io) :
    ∃ left, Left (dev.ioWorkers turn) io (dev'.ioWorkers turn) left := by
  rcases h with rfl | h
  · exact ⟨io, Left.refl kl⟩
  · obtain ⟨d, hd, -, hspec⟩ := reclaimCompletedReqs_spec k
    obtain rfl := Except.ok.inj (h.symm.trans hd)
    have hs := hspec turn free io kl
    split at hs
    · obtain ⟨done, left, hio, hr⟩ := hs
      exact ⟨left, hr.left hio⟩
    · rw [hs]
      exact ⟨io, Left.refl kl⟩

section Linked
variable {fills : Fills} {loads : List Load} {placed free' io' left : List Nat}
  (k : Lists worker free io) (hp : PlacedAll worker free io fills placed worker' free' io')
  (hl : Left worker' io' worker₂ left)
include k hp hl

/-- Room for all of them: the placed entries are the ones linked. -/
theorem linked_of_room (hcarry : List.Forall₂ (fun (f : (IoWork → IoWork) × Nat) load =>
      ∀ w w' : IoWork, w'.data = (f.1 w).data → load.Carried w' ∧ w'.isCompleted = false) fills loads)
    (hroom : loads.length < free.length) : Linked worker worker₂ loads := by
  have hlen := hcarry.length_eq
  have hall : fills.take placed.length = fills := by
    apply List.take_of_length_le
    rw [hp.count]
    omega
  have hhold := hp.hold
  rw [hall] at hhold
  -- what the entries hold is what the loads ask for, also after the reclaim
  have hboth : List.Forall₂ (fun e (load : Load) => (load.Carried (worker₂.workQueue e)) ∧
      (worker'.workQueue e).isCompleted = false) placed loads := by
    refine forall₂_trans ?_ hhold hcarry
    intro e f load ⟨w, hw⟩ hc
    have h₁ := hc w (worker'.workQueue e) hw
    have h₂ := hc w (worker₂.workQueue e) ((hl.data e).trans hw)
    exact ⟨h₂.1, h₁.2⟩
  have hnodup := k.nodup
  rw [hp.taken] at hnodup
  refine ⟨placed, List.Nodup.of_append_left (List.Nodup.of_append_left hnodup), ?_, ?_, ?_⟩
  · intro e he
    have hfree : e ∈ free := by
      rw [hp.taken]
      exact List.mem_append_left free' he
    rw [k.inFlight_eq, hl.flight]
    refine ⟨k.disjoint hfree, hl.pending e (hp.flight.mem_iff.mpr (List.mem_append_left io he)) ?_⟩
    exact forall₂_left (fun _ _ h => h.2) hboth e he
  · intro e he
    rw [hl.flight] at he
    rw [k.inFlight_eq]
    exact List.mem_append.mp (hp.flight.mem_iff.mp (hl.sub he))
  · exact hboth.imp fun _ _ h => h.1

theorem room_of_linked (h : Linked worker worker₂ loads) : loads.length < free.length := by
  obtain ⟨es, hnodup, hes, -, hcarry⟩ := h
  have hsub : es ⊆ placed := by
    intro e he
    obtain ⟨hbefore, hafter⟩ := hes e he
    rw [k.inFlight_eq] at hbefore
    rw [hl.flight] at hafter
    rcases List.mem_append.mp (hp.flight.mem_iff.mp (hl.sub hafter)) with hm | hm
    · exact hm
    · exact absurd hm hbefore
  have hle : es.length ≤ placed.length := (hnodup.subperm hsub).length_le
  have hpos := List.length_pos_of_ne_nil k.free_ne_nil
  have hcount := hp.count
  rw [← hcarry.length_eq]
  omega

end Linked

section Command
variable {proc} {d d' : Dispatcher σ} {sqid sqEntry wall now : Nat} {size : Option Nat}

structure DevOk (dev : IoDev) : Prop where
  nr : 0 < dev.nrIoWorkers
  queues : QueuesOk dev

theorem placeAll_devOk (k : DevOk dev) {fills : Fills} (hfills : ∀ f ∈ fills, Unlinks f.1)
    (h : placeAll sqid fills dev = .ok dev') : DevOk dev' ∧ AfterAll dev sqid fills dev' := by
  obtain ⟨dev₁, h₁, k₁, after⟩ := placeAll_spec k.nr k.queues sqid hfills
  obtain rfl := Except.ok.inj (h.symm.trans h₁)
  exact ⟨⟨by rw [after.nr]; exact k.nr, k₁⟩, after⟩

theorem reclaim_devOk (k : DevOk dev) (h : dev' = dev ∨ reclaimCompletedReqs dev = .ok dev') :
    DevOk dev' := by
  rcases h with rfl | h
  · exact k
  · obtain ⟨dev₁, h₁, hnr, -⟩ := reclaimCompletedReqs_spec k.queues
    obtain rfl := Except.ok.inj (h.symm.trans h₁)
    exact ⟨by rw [hnr]; exact k.nr, reclaimCompletedReqs_keeps k.queues h⟩

/-- Once the handler has answered, the command goes through. -/
theorem nvmevProcIo_returns (k : DevOk d.io) {sq : SubmissionQueue} {o : HandlerOutcome σ}
    (hsq : d.sqes sqid = some sq) (ho : handled proc d sq sqid sqEntry wall = .ok o) :
    ∃ d', nvmevProcIo proc d sqid sqEntry wall now =
      .ok (d', if o.accepted then some (cmdIoSize o.cmd) else none) := by
  have hall := fillsOf_unlinks sqid sq.cqid sqEntry wall now o
  unfold nvmevProcIo
  rw [hsq]
  dsimp only
  rw [show proc _ d.ftl (sq.sq sqEntry) sqid wall ⟨nvmeScSuccess, wall⟩ = .ok o from ho, ok_bind,
    scheduleCalls_eq]
  obtain ⟨io, hio, kio, after⟩ := placeAll_spec k.nr k.queues sqid
    (fun f hf => hall f (List.mem_append_left _ hf))
  rw [hio, ok_bind]
  cases hacc : o.accepted with
  | false => exact ⟨_, by rw [if_pos rfl, if_neg (by simp)]; rfl⟩
  | true =>
    have hn : 0 < io.nrIoWorkers := by
      rw [after.nr]
      exact k.nr
    obtain ⟨io₁, hio₁, -⟩ := placeWork_spec hn kio sqid
      (requestWork_unlinks sqid sq.cqid sqEntry o.cmd.commandId wall now o.ret) o.ret.nsecsTarget
    have kio₁ := placeWork_keeps kio (requestWork_unlinks _ _ _ _ _ _ _) hio₁
    obtain ⟨io₂, hio₂, -⟩ := reclaimCompletedReqs_spec kio₁
    rw [if_neg (by simp), if_pos rfl]
    simp only [enqueueIoReq, hio₁, hio₂, ok_bind]
    exact ⟨_, rfl⟩

theorem nvmevProcIo_devOk (k : DevOk d.io)
    (h : nvmevProcIo proc d sqid sqEntry wall now = .ok (d', size)) : DevOk d'.io := by
  obtain ⟨sq, o, io, -, -, hio, hrec⟩ := nvmevProcIo_cases h
  exact reclaim_devOk (placeAll_devOk k (fillsOf_unlinks _ _ _ _ _ _) hio).1 hrec

/-- One command: every work is linked exactly when there is room for all of them. -/
theorem dropsNothing_iff_room (k : DevOk d.io) :
    DropsNothing proc d sqid sqEntry wall now ↔ Room proc d sqid sqEntry wall := by
  obtain ⟨free, io, kl⟩ := k.queues (workerOf d.io sqid)
  -- the command that went through, with the lists of its worker before and after
  have hstep : ∀ sq o d' size, d.sqes sqid = some sq → handled proc d sq sqid sqEntry wall = .ok o →
      nvmevProcIo proc d sqid sqEntry wall now = .ok (d', size) →
      (Linked (d.io.ioWorkers (workerOf d.io sqid)) (d'.io.ioWorkers (workerOf d.io sqid))
        (loadsOf sqid sq.cqid sqEntry o) ↔ (loadsOf sqid sq.cqid sqEntry o).length < free.length) := by
    intro sq o d' size hsq ho h
    obtain ⟨sq', o', io₁, hsq', ho', hio, hrec⟩ := nvmevProcIo_cases h
    obtain rfl := Option.some.inj (hsq.symm.trans hsq')
    obtain rfl := Except.ok.inj (ho.symm.trans ho')
    obtain ⟨k₁, after⟩ := placeAll_devOk k (fillsOf_unlinks _ _ _ _ _ _) hio
    obtain ⟨placed, free', io', hp⟩ := after.self free io kl
    obtain ⟨left, hleft⟩ := reclaim_left k₁.queues hrec hp.lists
    constructor
    · exact room_of_linked kl hp hleft
    · exact linked_of_room kl hp hleft (fillsOf_carried sqid sq.cqid sqEntry wall now o)
  constructor
  · intro h sq o hsq ho
    obtain ⟨d', hd'⟩ := nvmevProcIo_returns k hsq ho
    rw [kl.freeEntries_eq]
    exact (hstep sq o d' _ hsq ho hd').mp (h sq o d' _ hsq ho hd')
  · intro h sq o d' size hsq ho hd'
    have hroom := h sq o hsq ho
    rw [kl.freeEntries_eq] at hroom
    exact (hstep sq o d' size hsq ho hd').mpr hroom

end Command

/-- A command on its way: the state it meets, its slot and its number in the call. -/
structure Visit (σ : Type) where
  d : Dispatcher σ
  sqEntry : Nat
  seq : Nat

/-- The commands that `procIoLoop` hands to the handler. -/
def procIoVisits (sqid queueSize : Nat) (wall now : Nat → Nat) :
    Nat → Nat → Nat → Dispatcher σ → List (Visit σ)
  | 0, _, _, _ => []
  | n + 1, seq, sqEntry, d => ⟨d, sqEntry, seq⟩ ::
    match nvmevProcIo proc d sqid sqEntry (wall seq) (now seq) with
    | .ok (d, some ioSize) =>
      let sqEntry := if sqEntry + 1 = queueSize then 0 else sqEntry + 1
      procIoVisits sqid queueSize wall now n (seq + 1) sqEntry (d.updateSq sqid (·.dispatched ioSize))
    | _ => []

def sqVisits (d : Dispatcher σ) (sqid newDb oldDb : Nat) (wall now : Nat → Nat) : List (Visit σ) :=
  match d.sqes sqid with
  | none => []
  | some sq =>
    let numProc := if newDb < oldDb then newDb + sq.queueSize - oldDb else newDb - oldDb
    procIoVisits proc sqid sq.queueSize wall now numProc 0 oldDb d

theorem procIoVisits_devOk {sqid queueSize : Nat} {wall now : Nat → Nat} {n seq sqEntry : Nat}
    {d : Dispatcher σ} (k : DevOk d.io) :
    ∀ v ∈ procIoVisits proc sqid queueSize wall now n seq sqEntry d, DevOk v.d.io := by
  induction n generalizing seq sqEntry d with
  | zero => exact fun v hv => absurd hv List.not_mem_nil
  | succ n ih =>
    intro v hv
    rw [procIoVisits] at hv
    rcases List.mem_cons.mp hv with rfl | hv
    · exact k
    · split at hv
      · rename_i d' ioSize heq
        have kd : DevOk d'.io := nvmevProcIo_devOk k heq
        exact ih (show DevOk (d'.updateSq sqid (·.dispatched ioSize)).io from kd) v hv
      · exact absurd hv List.not_mem_nil

theorem sqVisits_devOk {sqid newDb oldDb : Nat} {wall now : Nat → Nat} {d : Dispatcher σ}
    (k : DevOk d.io) : ∀ v ∈ sqVisits proc d sqid newDb oldDb wall now, DevOk v.d.io := by
  intro v hv
  unfold sqVisits at hv
  split at hv
  · exact absurd hv List.not_mem_nil
  · exact procIoVisits_devOk proc k v hv

theorem placeWork_nr {sqid : Nat} {fill : IoWork → IoWork} {t : Nat}
    (h : placeWork dev sqid fill t = .ok dev') : dev'.nrIoWorkers = dev.nrIoWorkers := by
  unfold placeWork at h
  obtain ⟨turn, -, h⟩ := bind_eq_ok.mp h
  obtain ⟨r, -, h⟩ := bind_eq_ok.mp h
  cases r with
  | none =>
    obtain rfl := Except.ok.inj h
    rfl
  | some worker =>
    obtain rfl := Except.ok.inj h
    rfl

theorem QueueReachable.nr {nrIoWorkers : Nat} (h : QueueReachable nrIoWorkers dev) :
    dev.nrIoWorkers = nrIoWorkers := by
  induction h with
  | init => rfl
  | enqueue _ h ih => exact (placeWork_nr h).trans ih
  | schedule _ h ih => exact (placeWork_nr h).trans ih
  | reclaim hr h ih =>
    obtain ⟨d, hd, hnr, -⟩ := reclaimCompletedReqs_spec hr.queuesOk
    obtain rfl := Except.ok.inj (h.symm.trans hd)
    exact hnr.trans ih
  | worker _ _ _ _ _ ih => exact ih

theorem QueueReachable.devOk {n : Nat} (h : QueueReachable (n + 1) dev) : DevOk dev :=
  ⟨by rw [h.nr]; omega, h.queuesOk⟩

/-- In every reachable state of the queues, a call of `nvmev_proc_io_sq` links one entry for each
work of each command it takes exactly when the worker's free list is longer than the number of
works of the command, at every command of the call. -/
theorem procIoSq_links_iff {n : Nat} {d : Dispatcher σ} (h : QueueReachable (n + 1) d.io)
    (sqid newDb oldDb : Nat) (wall now : Nat → Nat) :
    (∀ v ∈ sqVisits proc d sqid newDb oldDb wall now,
      DropsNothing proc v.d sqid v.sqEntry (wall v.seq) (now v.seq)) ↔
    (∀ v ∈ sqVisits proc d sqid newDb oldDb wall now, Room proc v.d sqid v.sqEntry (wall v.seq)) := by
  have hok : ∀ v ∈ sqVisits proc d sqid newDb oldDb wall now, DevOk v.d.io :=
    sqVisits_devOk proc h.devOk
  constructor
  · intro hall v hv
    exact (dropsNothing_iff_room (hok v hv)).mp (hall v hv)
  · intro hall v hv
    exact (dropsNothing_iff_room (hok v hv)).mpr (hall v hv)

/-- A handler that takes every command at once, as `conv_proc_nvme_io_cmd` does with an opcode
it does not implement. -/
def acceptAll : ProcIoCmd Unit := fun _ ftl cmd _ _ ret => .ok ⟨true, ftl, cmd, ret, []⟩

theorem workerOf_one (h : dev.nrIoWorkers = 1) (sqid : Nat) : workerOf dev sqid = 0 := by
  unfold workerOf
  rw [h, Nat.mod_one]

/-- After `k` requests that nobody completes, `k` entries have left the free list. -/
theorem reachable_filled (k : Nat) (hk : k < nrMaxParallelIo) : ∃ dev free io, QueueReachable 1 dev ∧
    Lists (dev.ioWorkers 0) free io ∧ free.length = nrMaxParallelIo - k := by
  induction k with
  | zero => exact ⟨_, _, _, .init, initWorker_lists, by simp⟩
  | succ k ih =>
    obtain ⟨dev, free, io, hr, kl, hlen⟩ := ih (by omega)
    have hn := hr.nr
    obtain ⟨dev', hdev', -, -, hself⟩ := placeWork_spec (by omega) hr.queuesOk 1
      (requestWork_unlinks 1 1 0 0 0 0 ⟨nvmeScSuccess, 0⟩) 0
    rw [workerOf_one hn] at hself
    rcases hself free io kl with ⟨hone, -⟩ | ⟨-, e, free', io', hp⟩
    · omega
    · refine ⟨dev', free', io', .enqueue hr hdev', hp.lists, ?_⟩
      rw [hp.free, List.length_cons] at hlen
      omega

def command7 : NvmeRwCommand := ⟨0xff, 7, 1, 0, 0, 0, 0, 0⟩

def queue1 : SubmissionQueue := ⟨1, 1024, fun _ => command7, ⟨0, 0, 0, 0, 0⟩⟩

/-- Queue 1 with one command in slot 0. -/
def oneCommand (dev : IoDev) : Dispatcher Unit where
  io := dev
  ftl := ()
  sqes := fun sqid => if sqid = 1 then some queue1 else none

theorem oneCommand_handled (dev : IoDev) : handled acceptAll (oneCommand dev) queue1 1 0 0 =
    .ok ⟨true, (), command7, ⟨nvmeScSuccess, 0⟩, []⟩ := rfl

theorem oneCommand_returns (k : DevOk dev) : ∃ d',
    nvmevProcIo acceptAll (oneCommand dev) 1 0 0 0 = .ok (d', some (cmdIoSize command7)) :=
  nvmevProcIo_returns (d := oneCommand dev) k rfl (oneCommand_handled dev)

theorem oneCommand_advances (k : DevOk dev) : ∃ d',
    nvmevProcIoSq acceptAll (oneCommand dev) 1 1 0 (fun _ => 0) (fun _ => 0) = .ok (d', 1) := by
  obtain ⟨d', hd'⟩ := oneCommand_returns k
  have hloop : procIoLoop acceptAll 1 1024 (fun _ => 0) (fun _ => 0) 1 0 0 (oneCommand dev) =
      .ok (d'.updateSq 1 (·.dispatched (cmdIoSize command7)), 1) := by
    rw [procIoLoop, hd']
    rfl
  have hsq : nvmevProcIoSq acceptAll (oneCommand dev) 1 1 0 (fun _ => 0) (fun _ => 0) =
      (procIoLoop acceptAll 1 1024 (fun _ => 0) (fun _ => 0) 1 0 0 (oneCommand dev) >>= _) := rfl
  rw [hsq, hloop]
  exact ⟨_, rfl⟩

theorem oneCommand_room (hn : dev.nrIoWorkers = 1) : Room acceptAll (oneCommand dev) 1 0 0 ↔
    1 < (freeEntries (dev.ioWorkers 0)).length := by
  have hw : workerOf (oneCommand dev).io 1 = 0 := workerOf_one hn 1
  constructor
  · intro h
    have hroom := h queue1 _ rfl (oneCommand_handled dev)
    rw [hw] at hroom
    exact hroom
  · intro h sq o hsq ho
    obtain rfl := Option.some.inj hsq
    obtain rfl := Except.ok.inj ho
    rw [hw]
    exact h

/-- 16383 requests in flight: the next command is taken from the queue and linked nowhere. -/
theorem procIoSq_drops_command : ∃ dev d', QueueReachable 1 dev ∧
    nvmevProcIoSq acceptAll (oneCommand dev) 1 1 0 (fun _ => 0) (fun _ => 0) = .ok (d', 1) ∧
    ¬ DropsNothing acceptAll (oneCommand dev) 1 0 0 0 := by
  obtain ⟨dev, free, io, hr, kl, hlen⟩ := reachable_filled (nrMaxParallelIo - 1) (by decide)
  obtain ⟨d', hd'⟩ := oneCommand_advances hr.devOk
  refine ⟨dev, d', hr, hd', ?_⟩
  intro h
  have hroom := (oneCommand_room hr.nr).mp ((dropsNothing_iff_room (d := oneCommand dev) hr.devOk).mp h)
  rw [kl.freeEntries_eq, hlen] at hroom
  exact absurd hroom (by decide)

/-- A fresh device has room for the command. -/
theorem procIoSq_links_one : QueueReachable 1 (nvmevIoWorkerInit 1) ∧
    ∀ v ∈ sqVisits acceptAll (oneCommand (nvmevIoWorkerInit 1)) 1 1 0 (fun _ => 0) (fun _ => 0),
      DropsNothing acceptAll v.d 1 v.sqEntry 0 0 := by
  have hr : QueueReachable 1 (nvmevIoWorkerInit 1) := .init
  refine ⟨hr, (procIoSq_links_iff acceptAll (d := oneCommand (nvmevIoWorkerInit 1)) hr 1 1 0
    (fun _ => 0) (fun _ => 0)).mpr ?_⟩
  obtain ⟨d', hd'⟩ := oneCommand_returns hr.devOk
  have hvisits : sqVisits acceptAll (oneCommand (nvmevIoWorkerInit 1)) 1 1 0 (fun _ => 0) (fun _ => 0) =
      procIoVisits acceptAll 1 1024 (fun _ => 0) (fun _ => 0) 1 0 0 (oneCommand (nvmevIoWorkerInit 1)) := rfl
  intro v hv
  rw [hvisits, procIoVisits, hd'] at hv
  obtain rfl := List.mem_singleton.mp hv
  refine (oneCommand_room rfl).mpr ?_
  have hfree : freeEntries ((nvmevIoWorkerInit 1).ioWorkers 0) = List.range nrMaxParallelIo :=
    initWorker_lists.freeEntries_eq
  rw [hfree, List.length_range]
  decide

end NVMeVirt
