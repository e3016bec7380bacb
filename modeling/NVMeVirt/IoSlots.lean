import NVMeVirt.IoTrace

/-!
# Submission slots under reuse

The host, the dispatcher and one worker on one submission queue. A work entry stores the
index of its slot only; the worker reads the slot again when it makes the transfer.
Command number `n` of the queue is in slot `n % queue_size`. `dispatched` and `number`
remember, for each work entry, the command that was in the slot when it was enqueued and
its number.
-/

namespace NVMeVirt
set_option autoImplicit false
open Outcome Chains

structure Transfer where
  used : NvmeRwCommand
  dispatched : NvmeRwCommand

structure SlotTrace where
  trace : Trace
  sq : Nat → NvmeRwCommand
  dispatched : Nat → NvmeRwCommand
  number : Nat → Nat
  submitted : Nat
  consumed : Nat
  /-- The commands whose completion has reported their slot as the SQ head. -/
  reported : List Nat
  transfers : List Transfer

namespace SlotTrace

def init (sq : Nat → NvmeRwCommand) : SlotTrace :=
  ⟨Trace.init, sq, fun _ => sq 0, fun _ => 0, 0, 0, [], []⟩

/-- The host writes the next slot and rings the doorbell. -/
def submit (s : SlotTrace) (queueSize : Nat) (cmd : NvmeRwCommand) : SlotTrace :=
  { s with sq := Function.update s.sq (s.submitted % queueSize) cmd, submitted := s.submitted + 1 }

/-- The handler leaves `cmd` in the slot (a zone append rewrites its `slba`); the request goes
into the head of the free list. -/
def dispatch (s : SlotTrace) (queueSize : Nat) (cmd : NvmeRwCommand) (c : WorkCall) (worker' : IoWorker) :
    SlotTrace :=
  { s with
    trace := s.trace.placed c worker'
    sq := Function.update s.sq (s.consumed % queueSize) cmd
    dispatched := Function.update s.dispatched s.trace.worker.freeSeq cmd
    number := Function.update s.number s.trace.worker.freeSeq s.consumed
    consumed := s.consumed + 1 }

def drop (s : SlotTrace) (queueSize : Nat) (cmd : NvmeRwCommand) : SlotTrace :=
  { s with sq := Function.update s.sq (s.consumed % queueSize) cmd, consumed := s.consumed + 1 }

def transfersOf (s : SlotTrace) (actions : List WorkerAction) : List Transfer :=
  actions.filterMap fun
    | .performIo _ sqEntry => some ⟨s.sq sqEntry, s.dispatched s.trace.curr⟩
    | _ => none

def reportsOf (s : SlotTrace) (actions : List WorkerAction) : List Nat :=
  actions.filterMap fun
    | .fillCqResult _ => some (s.number s.trace.curr)
    | _ => none

def turn (s : SlotTrace) (now : Nat) : SlotTrace :=
  let actions := (workerTurn s.trace.worker s.trace.curr now).2.2
  { s with
    trace := s.trace.turn now
    transfers := s.transfers ++ s.transfersOf actions
    reported := s.reported ++ s.reportsOf actions }

end SlotTrace

/-- Every interleaving of submissions that `host` allows with the steps of the device. -/
inductive SlotReachable (queueSize : Nat) (host : SlotTrace → Prop) : SlotTrace → Prop where
  | init (sq : Nat → NvmeRwCommand) : SlotReachable queueSize host (SlotTrace.init sq)
  | submit {s : SlotTrace} (hs : SlotReachable queueSize host s) (hh : host s) (cmd : NvmeRwCommand) :
      SlotReachable queueSize host (s.submit queueSize cmd)
  | dispatch {s : SlotTrace} (hs : SlotReachable queueSize host s) (hc : s.consumed < s.submitted)
      (cmd : NvmeRwCommand) (sqid cqid nsecsStart now : Nat) (ret : NvmevResult) {worker' : IoWorker}
      (h : placeEntry s.trace.worker (requestWork sqid cqid (s.consumed % queueSize) cmd.commandId
        nsecsStart now ret) ret.nsecsTarget = .ok (some worker')) :
      SlotReachable queueSize host (s.dispatch queueSize cmd (.enqueueIoReq sqid cqid
        (s.consumed % queueSize) cmd.commandId nsecsStart now ret) worker')
  | drop {s : SlotTrace} (hs : SlotReachable queueSize host s) (hc : s.consumed < s.submitted)
      (cmd : NvmeRwCommand) (sqid cqid nsecsStart now : Nat) (ret : NvmevResult)
      (h : placeEntry s.trace.worker (requestWork sqid cqid (s.consumed % queueSize) cmd.commandId
        nsecsStart now ret) ret.nsecsTarget = .ok none) :
      SlotReachable queueSize host (s.drop queueSize cmd)
  | internal {s : SlotTrace} (hs : SlotReachable queueSize host s)
      (sqid nsecsTarget writeBuffer buffsToRelease now : Nat) {worker' : IoWorker}
      (h : placeEntry s.trace.worker (internalWork sqid nsecsTarget writeBuffer buffsToRelease now)
        nsecsTarget = .ok (some worker')) :
      SlotReachable queueSize host { s with trace := s.trace.placed (.scheduleInternalOperation sqid
        nsecsTarget writeBuffer buffsToRelease now) worker' }
  | reclaim {s : SlotTrace} {worker' : IoWorker} (hs : SlotReachable queueSize host s)
      (h : reclaimWorker s.trace.worker = .ok worker') :
      SlotReachable queueSize host { s with trace := s.trace.reclaim worker' }
  | start {s : SlotTrace} (hs : SlotReachable queueSize host s) (h : s.trace.curr = noEntry) :
      SlotReachable queueSize host
        { s with trace := { s.trace with curr := s.trace.worker.ioSeq } }
  | turn {s : SlotTrace} (hs : SlotReachable queueSize host s) (h : s.trace.curr ≠ noEntry) (now : Nat)
      (hnow : s.trace.clock ≤ now) : SlotReachable queueSize host (s.turn now)

/-- The host's right to write the next slot: it is the first use of the slot, or the command in it
has been consumed and either a reported SQ head has passed it or at most `queue_size - 1` commands
are outstanding with the new one. -/
def MayWrite (queueSize : Nat) (s : SlotTrace) : Prop :=
  s.submitted < queueSize ∨ s.submitted - queueSize < s.consumed ∧
    ((∃ n ∈ s.reported, s.submitted - queueSize < n) ∨
      s.submitted + 1 - s.reported.length ≤ queueSize - 1)

/-- A request in flight whose transfer has not been made. -/
structure Pending (s : SlotTrace) (e : Nat) : Prop where
  flight : e ∈ inFlight s.trace.worker
  host : (s.trace.worker.workQueue e).isInternal = false
  fresh : (s.trace.worker.workQueue e).isCopied = false

/-- No transfer from the next slot is outstanding. -/
def SlotIdle (queueSize : Nat) (s : SlotTrace) : Prop :=
  ∀ e, Pending s e → (s.trace.worker.workQueue e).sqEntry ≠ s.submitted % queueSize

variable {queueSize : Nat} {host : SlotTrace → Prop} {s : SlotTrace}

/-- The device's part of a run is a run of dispatcher and worker. -/
theorem SlotReachable.trace (h : SlotReachable queueSize host s) : TraceReachable s.trace := by
  induction h with
  | init => exact .init
  | submit _ _ _ ih => exact ih
  | dispatch _ _ cmd sqid cqid nsecsStart now ret h ih =>
    exact ih.place (.enqueueIoReq sqid cqid _ cmd.commandId nsecsStart now ret) h
  | drop _ _ _ _ _ _ _ _ _ ih => exact ih
  | internal _ sqid nsecsTarget writeBuffer buffsToRelease now h ih =>
    exact ih.place (.scheduleInternalOperation sqid nsecsTarget writeBuffer buffsToRelease now) h
  | reclaim _ h ih => exact .reclaim ih h
  | start _ h ih => exact .start ih h
  | turn _ h now hnow ih => exact .turn ih h now hnow

/-- The slot of a pending request still holds its command, slots waiting for the dispatcher belong
to no pending request, and all transfers so far used the dispatched command. -/
structure SlotsOk (queueSize : Nat) (s : SlotTrace) : Prop where
  holds : ∀ e, Pending s e → s.sq (s.trace.worker.workQueue e).sqEntry = s.dispatched e
  waiting : ∀ n, s.consumed ≤ n → n < s.submitted → ∀ e, Pending s e →
    (s.trace.worker.workQueue e).sqEntry ≠ n % queueSize
  window : s.submitted ≤ s.consumed + queueSize
  right : ∀ t ∈ s.transfers, t.used = t.dispatched

theorem SlotsOk.submit (k : SlotsOk queueSize s) (hmay : MayWrite queueSize s)
    (hidle : SlotIdle queueSize s) (cmd : NvmeRwCommand) : SlotsOk queueSize (s.submit queueSize cmd) := by
  have hp : ∀ e, Pending (s.submit queueSize cmd) e → Pending s e := fun e h => ⟨h.flight, h.host, h.fresh⟩
  refine ⟨?_, ?_, ?_, k.right⟩
  · intro e he
    exact (Function.update_of_ne (hidle e (hp e he)) _ _).trans (k.holds e (hp e he))
  · intro n hn hlt e he
    have hlt : n < s.submitted + 1 := hlt
    by_cases hlast : n = s.submitted
    · subst hlast
      exact hidle e (hp e he)
    · exact k.waiting n hn (by omega) e (hp e he)
  · change s.submitted + 1 ≤ s.consumed + queueSize
    rcases hmay with h | ⟨h, -⟩
    · omega
    · omega

theorem pending_placed {worker' : IoWorker} (hs : TraceReachable s.trace) (c : WorkCall)
    (h : placeEntry s.trace.worker c.fill c.nsecsTarget = .ok (some worker')) {s' : SlotTrace}
    (hworker : s'.trace.worker = worker') {e : Nat} (he : Pending s' e) :
    (e = s.trace.worker.freeSeq ∧ (worker'.workQueue e).data = (c.fill (s.trace.worker.workQueue e)).data) ∨
    (e ≠ s.trace.worker.freeSeq ∧ Pending s e ∧
      (worker'.workQueue e).data = (s.trace.worker.workQueue e).data) := by
  obtain ⟨fresh, used, io, k⟩ := hs.ok
  rcases placeEntry_spec k.lists c.unlinks c.nsecsTarget with ⟨-, hn⟩ | ⟨-, x, worker₁, free', io', hp, placed⟩
  · rw [h] at hn
    cases hn
  · rw [h] at hp
    obtain rfl := Option.some.inj (Except.ok.inj hp)
    have hseq : s.trace.worker.freeSeq = x := by
      have hpath := k.lists.freePath
      rw [placed.free] at hpath
      exact hpath.1
    rw [hseq]
    by_cases hex : e = x
    · subst hex
      exact Or.inl ⟨rfl, placed.entry⟩
    · have hdata := placed.others e hex
      obtain ⟨-, hint, hcopied⟩ := IoWork.data_congr hdata
      have hh := he.host
      have hfr := he.fresh
      rw [hworker] at hh hfr
      refine Or.inr ⟨hex, ⟨?_, hint.symm.trans hh, hcopied.symm.trans hfr⟩, hdata⟩
      · have hf := he.flight
        rw [hworker, placed.lists.inFlight_eq] at hf
        rw [k.lists.inFlight_eq]
        exact (List.mem_cons.mp (placed.io.mem_iff.mp hf)).resolve_left hex

/-- Two commands waiting for the dispatcher are in different slots. -/
theorem slot_ne {c n m : Nat} (h : c < n) (hw : n < m) (hm : m ≤ c + queueSize) :
    c % queueSize ≠ n % queueSize := by
  intro he
  have hd : queueSize ∣ n - c := Nat.dvd_of_mod_eq_zero (Nat.sub_mod_eq_zero_of_mod_eq he.symm)
  have hle := Nat.le_of_dvd (by omega) hd
  omega

theorem SlotsOk.drop (k : SlotsOk queueSize s) (hc : s.consumed < s.submitted) (cmd : NvmeRwCommand) :
    SlotsOk queueSize (s.drop queueSize cmd) := by
  have hp : ∀ e, Pending (s.drop queueSize cmd) e → Pending s e := fun e h => ⟨h.flight, h.host, h.fresh⟩
  have hwindow := k.window
  refine ⟨?_, ?_, ?_, k.right⟩
  · intro e he
    have hne := k.waiting s.consumed (Nat.le_refl _) hc e (hp e he)
    exact (Function.update_of_ne hne _ _).trans (k.holds e (hp e he))
  · intro n hn hlt e he
    exact k.waiting n (Nat.le_of_succ_le hn) hlt e (hp e he)
  · change s.submitted ≤ s.consumed + 1 + queueSize
    omega

theorem SlotsOk.dispatch (k : SlotsOk queueSize s) (hs : TraceReachable s.trace)
    (hc : s.consumed < s.submitted) {cmd : NvmeRwCommand} {sqid cqid nsecsStart now : Nat}
    {ret : NvmevResult} {worker' : IoWorker}
    (h : placeEntry s.trace.worker (requestWork sqid cqid (s.consumed % queueSize) cmd.commandId
      nsecsStart now ret) ret.nsecsTarget = .ok (some worker')) :
    SlotsOk queueSize (s.dispatch queueSize cmd (.enqueueIoReq sqid cqid (s.consumed % queueSize)
      cmd.commandId nsecsStart now ret) worker') := by
  have hwindow := k.window
  have hpend := fun e (he : Pending (s.dispatch queueSize cmd (.enqueueIoReq sqid cqid
      (s.consumed % queueSize) cmd.commandId nsecsStart now ret) worker') e) =>
    pending_placed hs (.enqueueIoReq sqid cqid _ cmd.commandId nsecsStart now ret) h rfl he
  refine ⟨?_, ?_, ?_, k.right⟩
  · intro e he
    change Function.update s.sq (s.consumed % queueSize) cmd (worker'.workQueue e).sqEntry =
      Function.update s.dispatched s.trace.worker.freeSeq cmd e
    rcases hpend e he with ⟨rfl, hdata⟩ | ⟨hne, hp, hdata⟩
    · have hslot : (worker'.workQueue s.trace.worker.freeSeq).sqEntry = s.consumed % queueSize :=
        (IoWork.data_congr hdata).1
      rw [hslot, Function.update_self, Function.update_self]
    · have hslot : (worker'.workQueue e).sqEntry = (s.trace.worker.workQueue e).sqEntry :=
        (IoWork.data_congr hdata).1
      rw [hslot, Function.update_of_ne (k.waiting s.consumed (Nat.le_refl _) hc e hp),
        Function.update_of_ne hne]
      exact k.holds e hp
  · intro n hn hlt e he
    have hn : s.consumed + 1 ≤ n := hn
    have hlt : n < s.submitted := hlt
    change (worker'.workQueue e).sqEntry ≠ n % queueSize
    rcases hpend e he with ⟨rfl, hdata⟩ | ⟨hne, hp, hdata⟩
    · have hslot : (worker'.workQueue s.trace.worker.freeSeq).sqEntry = s.consumed % queueSize :=
        (IoWork.data_congr hdata).1
      rw [hslot]
      exact slot_ne (by omega) hlt hwindow
    · have hslot : (worker'.workQueue e).sqEntry = (s.trace.worker.workQueue e).sqEntry :=
        (IoWork.data_congr hdata).1
      rw [hslot]
      exact k.waiting n (by omega) hlt e hp
  · change s.submitted ≤ s.consumed + 1 + queueSize
    omega

/-- A step of the device that adds no pending request and leaves the slots alone. -/
theorem SlotsOk.device (k : SlotsOk queueSize s) {s' : SlotTrace} (hsq : s'.sq = s.sq)
    (hd : s'.dispatched = s.dispatched) (hsub : s'.submitted = s.submitted) (hcon : s'.consumed = s.consumed)
    (hp : ∀ e, Pending s' e → Pending s e ∧
      (s'.trace.worker.workQueue e).sqEntry = (s.trace.worker.workQueue e).sqEntry)
    (ht : ∀ t ∈ s'.transfers, t.used = t.dispatched) : SlotsOk queueSize s' := by
  refine ⟨?_, ?_, by rw [hsub, hcon]; exact k.window, ht⟩
  · intro e he
    rw [hsq, hd, (hp e he).2]
    exact k.holds e (hp e he).1
  · intro n hn hlt e he
    rw [hcon] at hn
    rw [hsub] at hlt
    rw [(hp e he).2]
    exact k.waiting n hn hlt e (hp e he).1

theorem SlotsOk.internal (k : SlotsOk queueSize s) (hs : TraceReachable s.trace)
    {sqid nsecsTarget writeBuffer buffsToRelease now : Nat} {worker' : IoWorker}
    (h : placeEntry s.trace.worker (internalWork sqid nsecsTarget writeBuffer buffsToRelease now)
      nsecsTarget = .ok (some worker')) :
    SlotsOk queueSize { s with trace := s.trace.placed (.scheduleInternalOperation sqid nsecsTarget
      writeBuffer buffsToRelease now) worker' } := by
  refine SlotsOk.device k rfl rfl rfl rfl ?_ k.right
  intro e he
  rcases pending_placed hs (.scheduleInternalOperation sqid nsecsTarget writeBuffer buffsToRelease now) h rfl
    he with ⟨-, hdata⟩ | ⟨-, hp, hdata⟩
  · have hint : (worker'.workQueue e).isInternal = true := (IoWork.data_congr hdata).2.1
    exact absurd (hint.symm.trans he.host) (by simp)
  · exact ⟨hp, (IoWork.data_congr hdata).1⟩

theorem SlotsOk.reclaim (k : SlotsOk queueSize s) (hs : TraceReachable s.trace) {worker' : IoWorker}
    (h : reclaimWorker s.trace.worker = .ok worker') :
    SlotsOk queueSize { s with trace := s.trace.reclaim worker' } := by
  obtain ⟨fresh, used, io, t⟩ := hs.ok
  obtain ⟨worker₁, done, left, h₁, hio, r⟩ := reclaimWorker_spec t.lists
  obtain rfl := Except.ok.inj (h.symm.trans h₁)
  refine SlotsOk.device k rfl rfl rfl rfl ?_ k.right
  intro e he
  obtain ⟨hslot, hint, hcopied⟩ := IoWork.data_congr (r.data e)
  refine ⟨⟨?_, hint.symm.trans he.host, hcopied.symm.trans he.fresh⟩, hslot⟩
  · have hf : e ∈ inFlight worker' := he.flight
    rw [(r.left hio).flight] at hf
    rw [t.lists.inFlight_eq]
    exact (r.left hio).sub hf

theorem SlotsOk.turn (k : SlotsOk queueSize s) (hs : TraceReachable s.trace)
    (h : s.trace.curr ≠ noEntry) (now : Nat) : SlotsOk queueSize (s.turn now) := by
  obtain ⟨fresh, used, io, t⟩ := hs.ok
  have turned := workerTurn_turned s.trace.worker s.trace.curr now
  refine SlotsOk.device k rfl rfl rfl rfl ?_ ?_
  · intro e he
    obtain ⟨hslot, hint⟩ := IoWork.load_fields (turned.load e)
    refine ⟨⟨?_, hint.symm.trans he.host, ?_⟩, hslot⟩
    · have hf : e ∈ inFlight (workerTurn s.trace.worker s.trace.curr now).1 := he.flight
      rw [(turned.lists _ _ t.lists).inFlight_eq] at hf
      rw [t.lists.inFlight_eq]
      exact hf
    · by_cases hec : e = s.trace.curr
      · subst hec
        exact (workerTurn_copied he.fresh).1
      · have hsame := turned.others e hec
        exact (congrArg IoWork.isCopied hsame).symm.trans he.fresh
  · intro tr htr
    rcases List.mem_append.mp htr with htr | htr
    · exact k.right tr htr
    · obtain ⟨a, ha, hat⟩ := List.mem_filterMap.mp htr
      cases a with
      | fillCqResult w => cases hat
      | bufferRelease b n => cases hat
      | performIo sqid sqEntry =>
        obtain ⟨hcomp, hcopied, hint, -, rfl⟩ := workerTurn_performIo ha
        have hcur := t.cursor.resolve_left h
        -- a reclaimed entry is completed, so the cursor stands on an entry in flight
        have hio : s.trace.curr ∈ io := by
          rcases List.mem_append.mp hcur with hu | hio
          · exact absurd ((t.usedDone _ hu).symm.trans hcomp) (by simp)
          · exact hio
        obtain rfl := Option.some.inj hat
        exact k.holds _ ⟨by rw [t.lists.inFlight_eq]; exact hio, hint, hcopied⟩

theorem init_slotsOk (sq : Nat → NvmeRwCommand) : SlotsOk queueSize (SlotTrace.init sq) := by
  have hp : ∀ e, ¬ Pending (SlotTrace.init sq) e := by
    intro e he
    have hf := he.flight
    rw [show inFlight (SlotTrace.init sq).trace.worker = [] from initWorker_lists.inFlight_eq] at hf
    exact absurd hf List.not_mem_nil
  refine ⟨fun e he => absurd he (hp e), ?_, Nat.zero_le _, fun t ht => absurd ht List.not_mem_nil⟩
  intro n _ hn
  exact absurd hn (Nat.not_lt_zero n)

theorem SlotReachable.slotsOk
    (h : SlotReachable queueSize (fun s => MayWrite queueSize s ∧ SlotIdle queueSize s) s) :
    SlotsOk queueSize s := by
  induction h with
  | init sq => exact init_slotsOk sq
  | submit _ hh cmd ih => exact ih.submit hh.1 hh.2 cmd
  | dispatch hs hc cmd _ _ _ _ _ h ih => exact ih.dispatch hs.trace hc h
  | drop _ hc cmd _ _ _ _ _ _ ih => exact ih.drop hc cmd
  | internal hs _ _ _ _ _ h ih => exact ih.internal hs.trace h
  | reclaim hs h ih => exact ih.reclaim hs.trace h
  | start _ _ ih =>
    exact SlotsOk.device ih rfl rfl rfl rfl
      (fun e he => ⟨⟨he.flight, he.host, he.fresh⟩, rfl⟩) ih.right
  | turn hs h now _ ih => exact ih.turn hs.trace h now

/-- In every run in which the host writes a slot only when no transfer from it is outstanding, every
transfer uses the command that was dispatched. -/
theorem transfers_use_dispatched {queueSize : Nat} {s : SlotTrace}
    (h : SlotReachable queueSize (fun s => MayWrite queueSize s ∧ SlotIdle queueSize s) s) :
    ∀ t ∈ s.transfers, t.used = t.dispatched := h.slotsOk.right

/-- A write of one LBA at `slba`, with its own id and buffer. -/
def writeAt (n slba : Nat) : NvmeRwCommand := ⟨1, n, 1, 4096 * (n + 1), 0, slba, 0, 0⟩

/-- A queue of four slots. The first command is slow, the next two overtake it and report the heads 1
and 2; the host fills slot 3 and then slot 0, before the worker has made the first transfer. -/
theorem transfer_uses_later_command : ∃ s, SlotReachable 4 (MayWrite 4) s ∧
    ∃ t ∈ s.transfers, t.dispatched = writeAt 0 0 ∧ t.used = writeAt 4 32 := by
  have h₁ : SlotReachable 4 (MayWrite 4) _ := .submit (.init fun _ => writeAt 0 0) (.inl (by decide))
    (writeAt 0 0)
  have h₂ : SlotReachable 4 (MayWrite 4) _ := .submit h₁ (.inl (by decide)) (writeAt 1 8)
  have h₃ : SlotReachable 4 (MayWrite 4) _ := .submit h₂ (.inl (by decide)) (writeAt 2 16)
  have h₄ : SlotReachable 4 (MayWrite 4) _ := .dispatch h₃ (by decide) (writeAt 0 0) 1 1 0 0 ⟨0, 1000⟩ rfl
  have h₅ : SlotReachable 4 (MayWrite 4) _ := .dispatch h₄ (by decide) (writeAt 1 8) 1 1 0 0 ⟨0, 10⟩ rfl
  have h₆ : SlotReachable 4 (MayWrite 4) _ := .dispatch h₅ (by decide) (writeAt 2 16) 1 1 0 0 ⟨0, 10⟩ rfl
  have h₇ : SlotReachable 4 (MayWrite 4) _ := .start h₆ rfl
  have h₈ : SlotReachable 4 (MayWrite 4) _ := .turn h₇ (by decide) 20 (by decide)
  have h₉ : SlotReachable 4 (MayWrite 4) _ := .turn h₈ (by decide) 20 (by decide)
  have h₁₀ : SlotReachable 4 (MayWrite 4) _ := .submit h₉ (.inl (by decide)) (writeAt 3 24)
  have h₁₁ : SlotReachable 4 (MayWrite 4) _ :=
    .submit h₁₀ (.inr ⟨by decide, .inl ⟨2, by decide, by decide⟩⟩) (writeAt 4 32)
  have h₁₂ : SlotReachable 4 (MayWrite 4) _ := .turn h₁₁ (by decide) 30 (by decide)
  exact ⟨_, h₁₂, _, .tail _ (.tail _ (.head _)), rfl, rfl⟩

/-- The same start, with the slow command's transfer made before its slot is written again. -/
theorem transfers_use_dispatched_slots : ∃ s,
    SlotReachable 4 (fun s => MayWrite 4 s ∧ SlotIdle 4 s) s ∧ s.transfers.length = 1 ∧
      ∀ t ∈ s.transfers, t.used = t.dispatched := by
  have hidle : SlotIdle 4 (SlotTrace.init fun _ => writeAt 0 0) := by
    intro e he
    have hf := he.flight
    rw [show inFlight (SlotTrace.init fun _ => writeAt 0 0).trace.worker = [] from
      initWorker_lists.inFlight_eq] at hf
    exact absurd hf List.not_mem_nil
  have h₁ : SlotReachable 4 (fun s => MayWrite 4 s ∧ SlotIdle 4 s) _ :=
    .submit (.init fun _ => writeAt 0 0) ⟨.inl (by decide), hidle⟩ (writeAt 0 0)
  have h₂ : SlotReachable 4 (fun s => MayWrite 4 s ∧ SlotIdle 4 s) _ :=
    .dispatch h₁ (by decide) (writeAt 0 0) 1 1 0 0 ⟨0, 1000⟩ rfl
  have h₃ : SlotReachable 4 (fun s => MayWrite 4 s ∧ SlotIdle 4 s) _ := .start h₂ rfl
  have h₄ : SlotReachable 4 (fun s => MayWrite 4 s ∧ SlotIdle 4 s) _ := .turn h₃ (by decide) 20 (by decide)
  exact ⟨_, h₄, rfl, transfers_use_dispatched h₄⟩

end NVMeVirt
