import NVMeVirt.IoDispatch
import NVMeVirt.IoThread

/-!
# Dispatcher and worker interleaved

The dispatcher places work and reclaims entries while the worker walks the links with its
own cursor, which may stand on an entry that has been reclaimed or placed again since.
Beside the queue, a `Trace` keeps the history: the calls that have placed work, with what they
were given, which call each entry holds or held last, what has been completed for whom, and whose
entries have been reclaimed. The program never reads the history.
-/

namespace NVMeVirt
set_option autoImplicit false
open Outcome Chains

/-- A call that places a work. The id is that of the command in the slot, `now` the reading of the
clock. -/
inductive WorkCall where
  | enqueueIoReq (sqid cqid sqEntry commandId nsecsStart now : Nat) (ret : NvmevResult)
  | scheduleInternalOperation (sqid nsecsTarget writeBuffer buffsToRelease now : Nat)
  deriving Repr, DecidableEq

namespace WorkCall

def run : WorkCall → IoDev → Except Fault IoDev
  | .enqueueIoReq sqid cqid sqEntry commandId nsecsStart now ret, dev =>
    NVMeVirt.enqueueIoReq dev sqid cqid sqEntry commandId nsecsStart now ret
  | .scheduleInternalOperation sqid nsecsTarget writeBuffer buffsToRelease now, dev =>
    NVMeVirt.scheduleInternalOperation dev sqid nsecsTarget writeBuffer buffsToRelease now

def sqid : WorkCall → Nat
  | .enqueueIoReq sqid _ _ _ _ _ _ => sqid
  | .scheduleInternalOperation sqid _ _ _ _ => sqid

def nsecsTarget : WorkCall → Nat
  | .enqueueIoReq _ _ _ _ _ _ ret => ret.nsecsTarget
  | .scheduleInternalOperation _ nsecsTarget _ _ _ => nsecsTarget

def isInternal : WorkCall → Bool
  | .enqueueIoReq .. => false
  | .scheduleInternalOperation .. => true

/-- The assignments of the call to its entry. -/
def fill : WorkCall → IoWork → IoWork
  | .enqueueIoReq sqid cqid sqEntry commandId nsecsStart now ret =>
    requestWork sqid cqid sqEntry commandId nsecsStart now ret
  | .scheduleInternalOperation sqid nsecsTarget writeBuffer buffsToRelease now =>
    internalWork sqid nsecsTarget writeBuffer buffsToRelease now

/-- The entry holds what the call was given, links and flags apart. -/
def Fills (c : WorkCall) (w : IoWork) : Prop := ∃ w₀, w.load = (c.fill w₀).load

end WorkCall

/-- A completion entry or a release, with the call of the entry at which it was made. -/
structure Finished where
  owner : Option Nat
  action : WorkerAction
  time : Nat

structure Trace where
  worker : IoWorker
  curr : Nat
  clock : Nat
  enqueued : List WorkCall
  owner : Nat → Option Nat
  log : List Finished
  reclaimed : List Nat

def WorkerAction.finishes : WorkerAction → Bool
  | .performIo _ _ => false
  | .fillCqResult _ => true
  | .bufferRelease _ _ => true

namespace Trace

def init : Trace := ⟨initWorker, noEntry, 0, [], fun _ => none, [], []⟩

def placed (s : Trace) (c : WorkCall) (worker' : IoWorker) : Trace :=
  { s with
    worker := worker'
    enqueued := s.enqueued ++ [c]
    owner := Function.update s.owner s.worker.freeSeq (some s.enqueued.length) }

/-- The entries that are no longer in flight have been reclaimed. -/
def reclaim (s : Trace) (worker' : IoWorker) : Trace :=
  { s with
    worker := worker'
    reclaimed := s.reclaimed ++
      ((inFlight s.worker).filter (fun e => e ∉ inFlight worker')).filterMap s.owner }

def turn (s : Trace) (now : Nat) : Trace :=
  let t := workerTurn s.worker s.curr now
  { s with
    worker := t.1
    curr := t.2.1
    clock := now
    log := s.log ++ (t.2.2.filter WorkerAction.finishes).map (⟨s.owner s.curr, ·, now⟩) }

end Trace

/-- Every interleaving of calls that find a free entry, reclaims and turns of the worker; `start` is the
worker reading `io_seq` again after it came to the end of the list. -/
inductive TraceReachable : Trace → Prop where
  | init : TraceReachable Trace.init
  | call {s : Trace} {dev dev' : IoDev} {turn : Nat} (hs : TraceReachable s) (c : WorkCall)
      (hturn : getIoWorker dev c.sqid = .ok turn) (hworker : dev.ioWorkers turn = s.worker)
      (hfree : (s.worker.workQueue s.worker.freeSeq).next < nrMaxParallelIo) (h : c.run dev = .ok dev') :
      TraceReachable (s.placed c (dev'.ioWorkers turn))
  | reclaim {s : Trace} {worker' : IoWorker} (hs : TraceReachable s)
      (h : reclaimWorker s.worker = .ok worker') : TraceReachable (s.reclaim worker')
  | start {s : Trace} (hs : TraceReachable s) (h : s.curr = noEntry) :
      TraceReachable { s with curr := s.worker.ioSeq }
  | turn {s : Trace} (hs : TraceReachable s) (h : s.curr ≠ noEntry) (now : Nat) (hnow : s.clock ≤ now) :
      TraceReachable (s.turn now)

/-- What completes the call: an entry with its ids and status, or the release of its bytes. -/
def Answers : WorkCall → WorkerAction → Prop
  | .enqueueIoReq sqid cqid _ commandId _ _ ret, .fillCqResult v => v.commandId = commandId ∧ v.sqid = sqid ∧
      v.cqid = cqid ∧ v.status = ret.status
  | .scheduleInternalOperation _ _ writeBuffer buffsToRelease _, .bufferRelease wb bytes =>
      wb = writeBuffer ∧ bytes = buffsToRelease
  | .enqueueIoReq .., .performIo .. => False
  | .enqueueIoReq .., .bufferRelease .. => False
  | .scheduleInternalOperation .., .performIo .. => False
  | .scheduleInternalOperation .., .fillCqResult .. => False

/-- Requests below `n`, each in one entry at most. -/
structure Owners (owner : Nat → Option Nat) (n : Nat) : Prop where
  bound : ∀ e k, owner e = some k → k < n
  inj : ∀ e e' k, owner e = some k → owner e' = some k → e = e'

theorem Owners.place {owner : Nat → Option Nat} {n : Nat} (h : Owners owner n) (e : Nat) :
    Owners (Function.update owner e (some n)) (n + 1) := by
  have hself : ∀ k, Function.update owner e (some n) e = some k → k = n := by
    intro k hk
    rw [Function.update_self] at hk
    exact (Option.some.inj hk).symm
  have hother : ∀ i k, i ≠ e → Function.update owner e (some n) i = some k → owner i = some k := by
    intro i k hi hk
    rwa [Function.update_of_ne hi] at hk
  constructor
  · intro i k hk
    by_cases hi : i = e
    · subst hi
      rw [hself k hk]
      exact Nat.lt_succ_self n
    · exact Nat.lt_succ_of_lt (h.bound i k (hother i k hi hk))
  · intro i j k hi hj
    by_cases hie : i = e
    · by_cases hje : j = e
      · exact hie.trans hje.symm
      · subst hie
        have hb := h.bound j k (hother j k hje hj)
        rw [hself k hi] at hb
        exact absurd hb (Nat.lt_irrefl n)
    · by_cases hje : j = e
      · subst hje
        have hb := h.bound i k (hother i k hie hi)
        rw [hself k hj] at hb
        exact absurd hb (Nat.lt_irrefl n)
      · exact h.inj i j k (hother i k hie hi) (hother j k hje hj)

/-- The free list starts with entries that were never placed, then come the `used` ones, all of
them completed; an entry in use is completed exactly when its request has been answered. -/
structure TraceOk (s : Trace) (fresh used io : List Nat) : Prop where
  lists : Lists s.worker (fresh ++ used) io
  owned : ∀ e ∈ used ++ io, ∃ k c, s.owner e = some k ∧ s.enqueued[k]? = some c ∧
    c.Fills (s.worker.workQueue e)
  owners : Owners s.owner s.enqueued.length
  usedDone : ∀ e ∈ used, (s.worker.workQueue e).isCompleted = true
  done : ∀ e ∈ used ++ io, ((s.worker.workQueue e).isCompleted = true ↔ ∃ f ∈ s.log, f.owner = s.owner e)
  answered : ∀ f ∈ s.log, ∃ k c, f.owner = some k ∧ s.enqueued[k]? = some c ∧
    c.nsecsTarget ≤ f.time ∧ Answers c f.action
  once : (s.log.map Finished.owner).Nodup
  reclaimedDone : ∀ k ∈ s.reclaimed, ∃ f ∈ s.log, f.owner = some k
  cursor : s.curr = noEntry ∨ s.curr ∈ used ++ io

theorem init_traceOk : TraceOk Trace.init (List.range nrMaxParallelIo) [] [] where
  lists := by
    rw [List.append_nil]
    exact initWorker_lists
  owned := fun e he => absurd he List.not_mem_nil
  owners := by
    constructor
    · intro e k h
      cases h
    · intro e e' k h
      cases h
  usedDone := fun e he => absurd he List.not_mem_nil
  done := fun e he => absurd he List.not_mem_nil
  answered := fun f hf => absurd hf List.not_mem_nil
  once := List.nodup_nil
  reclaimedDone := fun k hk => absurd hk List.not_mem_nil
  cursor := Or.inl rfl

variable {s : Trace} {fresh used io : List Nat}

theorem WorkCall.run_eq (c : WorkCall) (dev : IoDev) :
    c.run dev = placeWork dev c.sqid c.fill c.nsecsTarget := by
  cases c with
  | enqueueIoReq => rfl
  | scheduleInternalOperation => rfl

theorem WorkCall.unlinks (c : WorkCall) : Unlinks c.fill := by
  cases c with
  | enqueueIoReq => exact requestWork_unlinks _ _ _ _ _ _ _
  | scheduleInternalOperation => exact internalWork_unlinks _ _ _ _ _

theorem WorkCall.notCompleted (c : WorkCall) (w : IoWork) : (c.fill w).isCompleted = false := by
  cases c with
  | enqueueIoReq => rfl
  | scheduleInternalOperation => rfl

theorem WorkCall.Fills.of_data {c : WorkCall} {w w₀ : IoWork} (h : w.data = (c.fill w₀).data) : c.Fills w :=
  ⟨w₀, IoWork.load_congr h⟩

theorem WorkCall.Fills.congr {c : WorkCall} {w w' : IoWork} (h : c.Fills w) (hload : w'.load = w.load) :
    c.Fills w' := by
  obtain ⟨w₀, hw⟩ := h
  exact ⟨w₀, hload.trans hw⟩

theorem WorkCall.Fills.target {c : WorkCall} {w : IoWork} (h : c.Fills w) : w.nsecsTarget = c.nsecsTarget := by
  obtain ⟨w₀, hw⟩ := h
  have htarget : w.load.nsecsTarget = (c.fill w₀).load.nsecsTarget := by rw [hw]
  cases c with
  | enqueueIoReq => exact htarget
  | scheduleInternalOperation => exact htarget

theorem allocateEntry_free {worker : IoWorker}
    (h : (worker.workQueue worker.freeSeq).next < nrMaxParallelIo) : allocateEntry worker ≠ .ok none := by
  unfold allocateEntry
  dsimp only
  rw [if_neg (Nat.not_le.mpr h)]
  intro hno
  obtain ⟨_, -, hno⟩ := bind_eq_ok.mp hno
  cases hno

theorem WorkCall.run_placed (c : WorkCall) {dev dev' : IoDev} {worker : IoWorker} {turn : Nat}
    (hturn : getIoWorker dev c.sqid = .ok turn) (hworker : dev.ioWorkers turn = worker)
    (hfree : (worker.workQueue worker.freeSeq).next < nrMaxParallelIo) (h : c.run dev = .ok dev') :
    placeEntry worker c.fill c.nsecsTarget = .ok (some (dev'.ioWorkers turn)) := by
  rw [c.run_eq] at h
  unfold placeWork at h
  rw [hturn, ok_bind, hworker] at h
  obtain ⟨placed, hp, h⟩ := bind_eq_ok.mp h
  cases placed with
  | none =>
    unfold placeEntry at hp
    obtain ⟨allocated, ha, hp⟩ := bind_eq_ok.mp hp
    cases allocated with
    | none => exact absurd ha (allocateEntry_free hfree)
    | some a =>
      obtain ⟨_, -, hp⟩ := bind_eq_ok.mp hp
      cases hp
  | some worker' =>
    cases h
    have hself : Function.update dev.ioWorkers turn worker' turn = worker' := Function.update_self _ _ _
    rw [hp]
    exact congrArg (Except.ok ∘ some) hself.symm

theorem placeEntry_free {worker worker' : IoWorker} {fill : IoWork → IoWork} {t : Nat}
    (h : placeEntry worker fill t = .ok (some worker')) :
    (worker.workQueue worker.freeSeq).next < nrMaxParallelIo := by
  by_contra hno
  unfold placeEntry allocateEntry at h
  dsimp only at h
  rw [if_pos (Nat.not_lt.mp hno)] at h
  cases h

theorem TraceReachable.place {s : Trace} (hs : TraceReachable s) (c : WorkCall) {worker' : IoWorker}
    (h : placeEntry s.worker c.fill c.nsecsTarget = .ok (some worker')) : TraceReachable (s.placed c worker') := by
  let dev : IoDev := { nvmevIoWorkerInit 1 with ioWorkers := fun _ => s.worker }
  have hturn : getIoWorker dev c.sqid = .ok (workerOf dev c.sqid) := getIoWorker_ok Nat.one_pos c.sqid
  have hrun : c.run dev = .ok (dev.place (workerOf dev c.sqid) worker') := by
    rw [c.run_eq]
    unfold placeWork
    rw [hturn, ok_bind, show placeEntry (dev.ioWorkers _) c.fill c.nsecsTarget = _ from h]
    rfl
  have hcall := hs.call c hturn rfl (placeEntry_free h) hrun
  rwa [IoDev.place_self] at hcall

/-- Wherever the head of the free list comes from, the entries in use are the old ones and it. -/
theorem used_split {e : Nat} {free' : List Nat} (h : fresh ++ used = e :: free') :
    ∃ fresh' used', free' = fresh' ++ used' ∧ (∀ i ∈ used', i ∈ used) ∧
      (∀ i ∈ used, i = e ∨ i ∈ used') := by
  cases fresh with
  | nil =>
    rw [List.nil_append] at h
    subst h
    exact ⟨[], free', rfl, fun i hi => List.mem_cons_of_mem e hi, fun i hi => List.mem_cons.mp hi⟩
  | cons x fresh =>
    rw [List.cons_append] at h
    injection h with _ h
    exact ⟨fresh, used, h.symm, fun i hi => hi, fun i hi => Or.inr hi⟩

/-- No completion is logged for a call that is made only now. -/
theorem TraceOk.not_logged (k : TraceOk s fresh used io) {f : Finished} (hf : f ∈ s.log) :
    f.owner ≠ some s.enqueued.length := by
  intro he
  obtain ⟨n, w, hn, hq, -⟩ := k.answered f hf
  have hlt : n < s.enqueued.length := (List.getElem?_eq_some_iff.mp hq).1
  rw [hn] at he
  exact absurd (Option.some.inj he) (Nat.ne_of_lt hlt)

/-- An entry in use afterwards is the one placed or was in use before. -/
theorem used_or_placed {used' io' : List Nat} {e : Nat} (hold : ∀ i ∈ used', i ∈ used)
    (hio : List.Perm io' (e :: io)) {i : Nat} (hi : i ∈ used' ++ io') : i = e ∨ (i ≠ e ∧ i ∈ used ++ io) := by
  by_cases hie : i = e
  · exact Or.inl hie
  · refine Or.inr ⟨hie, ?_⟩
    rcases List.mem_append.mp hi with hu | hio'
    · exact List.mem_append_left io (hold i hu)
    · exact List.mem_append_right used ((List.mem_cons.mp (hio.mem_iff.mp hio')).resolve_left hie)

theorem still_used {used' io' : List Nat} {e : Nat} (hnew : ∀ i ∈ used, i = e ∨ i ∈ used')
    (hio : List.Perm io' (e :: io)) {i : Nat} (hi : i ∈ used ++ io) : i ∈ used' ++ io' := by
  by_cases hie : i = e
  · rw [hie]
    exact List.mem_append_right used' (hio.mem_iff.mpr List.mem_cons_self)
  · rcases List.mem_append.mp hi with hu | hio'
    · exact List.mem_append_left io' ((hnew i hu).resolve_left hie)
    · exact List.mem_append_right used' (hio.mem_iff.mpr (List.mem_cons_of_mem e hio'))

theorem placed_enqueued {c c' : WorkCall} {worker' : IoWorker} {n : Nat} (h : s.enqueued[n]? = some c') :
    (s.placed c worker').enqueued[n]? = some c' :=
  (List.getElem?_append_left (List.getElem?_eq_some_iff.mp h).1).trans h

theorem TraceOk.place (k : TraceOk s fresh used io) (c : WorkCall) {worker' : IoWorker}
    (h : placeEntry s.worker c.fill c.nsecsTarget = .ok (some worker')) :
    ∃ fresh' used' io', TraceOk (s.placed c worker') fresh' used' io' := by
  rcases placeEntry_spec k.lists c.unlinks c.nsecsTarget with ⟨-, hn⟩ | ⟨-, e, worker₁, free', io', hp, placed⟩
  · rw [h] at hn
    cases hn
  · rw [h] at hp
    obtain rfl := Option.some.inj (Except.ok.inj hp)
    obtain ⟨fresh', used', hfree', hold, hnew⟩ := used_split placed.free
    have hseq : s.worker.freeSeq = e := by
      have hpath := k.lists.freePath
      rw [placed.free] at hpath
      exact hpath.1
    have hnot : (worker'.workQueue e).isCompleted = false :=
      (IoWork.isCompleted_congr placed.entry).trans (c.notCompleted _)
    have howner : ∀ i, i ≠ e → (s.placed c worker').owner i = s.owner i := by
      intro i hi
      rw [← hseq] at hi
      exact Function.update_of_ne hi _ _
    have howner' : (s.placed c worker').owner e = some s.enqueued.length := by
      rw [← hseq]
      exact Function.update_self _ _ _
    have hload : ∀ i, i ≠ e → ((s.placed c worker').worker.workQueue i).load = (s.worker.workQueue i).load :=
      fun i hi => IoWork.load_congr (placed.others i hi)
    have hcompleted : ∀ i, i ≠ e →
        ((s.placed c worker').worker.workQueue i).isCompleted = (s.worker.workQueue i).isCompleted :=
      fun i hi => IoWork.isCompleted_congr (placed.others i hi)
    refine ⟨fresh', used', io', by rw [← hfree']; exact placed.lists, ?_, ?_, ?_, ?_, ?_, k.once,
      k.reclaimedDone, ?_⟩
    · intro i hi
      rcases used_or_placed hold placed.io hi with rfl | ⟨hie, hio⟩
      · exact ⟨s.enqueued.length, c, howner', List.getElem?_concat_length, .of_data placed.entry⟩
      · obtain ⟨n, c', hn, hq, hfills⟩ := k.owned i hio
        exact ⟨n, c', (howner i hie).trans hn, placed_enqueued hq, hfills.congr (hload i hie)⟩
    · have ho := k.owners.place e
      rw [← hseq] at ho
      simpa [Trace.placed] using ho
    · intro i hi
      rw [hcompleted i ?_]
      · exact k.usedDone i (hold i hi)
      · -- the entry placed has left the free list
        rintro rfl
        have hn := k.lists.nodup
        rw [placed.free, hfree'] at hn
        exact (List.nodup_cons.mp hn).1 (by simp [hi])
    · intro i hi
      rcases used_or_placed hold placed.io hi with rfl | ⟨hie, hio⟩
      · rw [howner']
        constructor
        · intro hc
          exact absurd (hc.symm.trans hnot) (by simp)
        · rintro ⟨f, hf, hfo⟩
          exact absurd hfo (k.not_logged hf)
      · rw [howner i hie, hcompleted i hie]
        exact k.done i hio
    · intro f hf
      obtain ⟨n, w, hn, hq, ht⟩ := k.answered f hf
      exact ⟨n, w, hn, placed_enqueued hq, ht⟩
    · rcases k.cursor with hc | hc
      · exact Or.inl hc
      · exact Or.inr (still_used hnew placed.io hc)

theorem TraceOk.reclaim (k : TraceOk s fresh used io) {worker' : IoWorker}
    (h : reclaimWorker s.worker = .ok worker') :
    ∃ used' left, TraceOk (s.reclaim worker') fresh used' left := by
  obtain ⟨worker₁, done, left, h₁, hio, r⟩ := reclaimWorker_spec k.lists
  obtain rfl := Except.ok.inj (h.symm.trans h₁)
  have hcomp : ∀ i, (worker'.workQueue i).isCompleted = (s.worker.workQueue i).isCompleted :=
    fun i => IoWork.isCompleted_congr (r.data i)
  have hmem : ∀ i, i ∈ (used ++ done) ++ left ↔ i ∈ used ++ io := by
    intro i
    rw [hio, List.append_assoc]
  have hdone : ∀ i ∈ done, (s.worker.workQueue i).isCompleted = true := by
    intro i hi
    have hr := r.completed i hi
    simp only [IoWork.reclaimable, Bool.and_eq_true] at hr
    exact hr.1.1
  refine ⟨used ++ done, left, by rw [← List.append_assoc]; exact r.lists, ?_, k.owners, ?_, ?_, k.answered,
    k.once, ?_, ?_⟩
  · intro i hi
    obtain ⟨n, c, hn, hq, hfills⟩ := k.owned i ((hmem i).mp hi)
    exact ⟨n, c, hn, hq, hfills.congr (IoWork.load_congr (r.data i))⟩
  · intro i hi
    refine (hcomp i).trans ?_
    rcases List.mem_append.mp hi with hu | hd
    · exact k.usedDone i hu
    · exact hdone i hd
  · intro i hi
    change (worker'.workQueue i).isCompleted = true ↔ _
    rw [hcomp i]
    exact k.done i ((hmem i).mp hi)
  · intro n hn
    rcases List.mem_append.mp hn with hn | hn
    · exact k.reclaimedDone n hn
    · -- an entry that has left the list in flight was completed, so its request was answered
      obtain ⟨i, hi, hin⟩ := List.mem_filterMap.mp hn
      obtain ⟨hfl, hleft⟩ := List.mem_filter.mp hi
      rw [k.lists.inFlight_eq] at hfl
      have hnot : i ∉ left := by
        rw [r.lists.inFlight_eq] at hleft
        simpa using hleft
      rw [hio] at hfl
      have hid : i ∈ done := (List.mem_append.mp hfl).resolve_right hnot
      have hu : i ∈ used ++ io := by
        rw [hio]
        exact List.mem_append_right used (List.mem_append_left left hid)
      obtain ⟨f, hf, hfo⟩ := (k.done i hu).mp (hdone i hid)
      exact ⟨f, hf, hfo.trans hin⟩
  · rcases k.cursor with hc | hc
    · exact Or.inl hc
    · exact Or.inr ((hmem _).mpr hc)

theorem TraceOk.next_used (k : TraceOk s fresh used io) {e : Nat} (he : e ∈ used ++ io) :
    s.worker.next e = noEntry ∨ s.worker.next e ∈ used ++ io := by
  rcases List.mem_append.mp he with hu | hio
  · obtain ⟨b, -, hpath⟩ := path_append.mp k.lists.freePath
    rcases hpath.next_mem hu with hm | hn
    · exact Or.inr (List.mem_append_left io hm)
    · exact Or.inl hn
  · rcases k.lists.ioPath.next_mem hio with hm | hn
    · exact Or.inr (List.mem_append_right used hm)
    · exact Or.inl hn

theorem TraceOk.start (k : TraceOk s fresh used io) :
    TraceOk { s with curr := s.worker.ioSeq } fresh used io := by
  refine ⟨k.lists, k.owned, k.owners, k.usedDone, k.done, k.answered, k.once, k.reclaimedDone, ?_⟩
  have hpath := k.lists.ioPath
  cases io with
  | nil => exact Or.inl hpath
  | cons x l =>
    refine Or.inr ?_
    change s.worker.ioSeq ∈ used ++ x :: l
    rw [hpath.1]
    simp

theorem WorkCall.Fills.answers {c : WorkCall} {w : IoWork} (h : c.Fills w) :
    Answers c (finishOf { w with isCopied := true }) := by
  obtain ⟨w₀, hw⟩ := h
  unfold finishOf
  cases c with
  | enqueueIoReq sqid cqid sqEntry commandId nsecsStart now ret =>
    simp only [WorkCall.fill, requestWork, IoWork.load, IoWork.mk.injEq] at hw
    obtain ⟨hsqid, hcqid, -, hid, -, -, -, -, -, hstatus, -, -, hint, -⟩ := hw
    rw [hint, if_neg Bool.false_ne_true]
    exact ⟨hid, hsqid, hcqid, hstatus⟩
  | scheduleInternalOperation sqid nsecsTarget writeBuffer buffsToRelease now =>
    simp only [WorkCall.fill, internalWork, IoWork.load, IoWork.mk.injEq] at hw
    obtain ⟨-, -, -, -, -, -, -, -, -, -, -, -, hint, hbuffer, hbytes, -⟩ := hw
    rw [hint, if_pos rfl]
    exact ⟨hbuffer, hbytes⟩

theorem finishOf_finishes (w : IoWork) : (finishOf w).finishes = true := by
  unfold finishOf
  split
  · rfl
  · rfl

theorem copyActions_finishes (w : IoWork) : (copyActions w).filter WorkerAction.finishes = [] := by
  unfold copyActions
  split
  · rfl
  · rfl

theorem TraceOk.turn_quiet (k : TraceOk s fresh used io) (hcur : s.curr ∈ used ++ io) {now : Nat}
    (hflag : ((workerTurn s.worker s.curr now).1.workQueue s.curr).isCompleted =
      (s.worker.workQueue s.curr).isCompleted)
    (hlog : (workerTurn s.worker s.curr now).2.2.filter WorkerAction.finishes = []) :
    TraceOk (s.turn now) fresh used io := by
  have t := workerTurn_turned s.worker s.curr now
  have hcomp : ∀ i, ((workerTurn s.worker s.curr now).1.workQueue i).isCompleted =
      (s.worker.workQueue i).isCompleted := by
    intro i
    by_cases hi : i = s.curr
    · rw [hi]
      exact hflag
    · rw [t.others i hi]
  have hsame : (s.turn now).log = s.log := by
    simp [Trace.turn, hlog]
  refine ⟨t.lists _ _ k.lists, ?_, k.owners, ?_, ?_, ?_, ?_, ?_, ?_⟩
  · intro i hi
    obtain ⟨n, c, hn, hq, hfills⟩ := k.owned i hi
    exact ⟨n, c, hn, hq, hfills.congr (t.load i)⟩
  · intro i hi
    exact (hcomp i).trans (k.usedDone i hi)
  · intro i hi
    rw [hsame]
    change (((workerTurn s.worker s.curr now).1.workQueue i).isCompleted = true ↔ _)
    rw [hcomp i]
    exact k.done i hi
  · rw [hsame]
    exact k.answered
  · rw [hsame]
    exact k.once
  · rw [hsame]
    exact k.reclaimedDone
  · change (workerTurn s.worker s.curr now).2.1 = noEntry ∨ (workerTurn s.worker s.curr now).2.1 ∈ used ++ io
    rw [t.next]
    exact k.next_used hcur

/-- A turn that completes the entry at the cursor: its request had not been answered yet. -/
theorem TraceOk.turn_finish (k : TraceOk s fresh used io) (hcur : s.curr ∈ used ++ io) {now : Nat}
    (hc : (s.worker.workQueue s.curr).isCompleted = false)
    (ht : (s.worker.workQueue s.curr).nsecsTarget ≤ now) :
    TraceOk (s.turn now) fresh used io := by
  have t := workerTurn_turned s.worker s.curr now
  have hturn := workerTurn_finish hc ht
  obtain ⟨n, c, hn, hq, hfills⟩ := k.owned s.curr hcur
  have hnew : ∀ f ∈ s.log, f.owner ≠ s.owner s.curr := by
    intro f hf he
    have hyes := (k.done s.curr hcur).mpr ⟨f, hf, he⟩
    exact absurd (hyes.symm.trans hc) (by simp)
  have hself : ((workerTurn s.worker s.curr now).1.workQueue s.curr).isCompleted = true := by
    rw [hturn]
    simp [IoWorker.set]
  have hlog : (s.turn now).log = s.log ++
      [⟨s.owner s.curr, finishOf { s.worker.workQueue s.curr with isCopied := true }, now⟩] := by
    unfold Trace.turn
    simp only [hturn, List.filter_append, copyActions_finishes, List.nil_append, List.filter_singleton,
      finishOf_finishes, cond_true, List.map_cons, List.map_nil]
  refine ⟨t.lists _ _ k.lists, ?_, k.owners, ?_, ?_, ?_, ?_, ?_, ?_⟩
  · intro i hi
    obtain ⟨m, c', hm, hmq, hfills'⟩ := k.owned i hi
    exact ⟨m, c', hm, hmq, hfills'.congr (t.load i)⟩
  · intro i hi
    by_cases hic : i = s.curr
    · rw [hic]
      exact hself
    · rw [show (s.turn now).worker.workQueue i = _ from t.others i hic]
      exact k.usedDone i hi
  · intro i hi
    rw [hlog]
    by_cases hic : i = s.curr
    · subst hic
      exact iff_of_true hself ⟨_, List.mem_append_right _ (List.mem_singleton.mpr rfl), rfl⟩
    · rw [show (s.turn now).worker.workQueue i = _ from t.others i hic, k.done i hi]
      constructor
      · rintro ⟨f, hf, hfo⟩
        exact ⟨f, List.mem_append_left _ hf, hfo⟩
      · rintro ⟨f, hf, hfo⟩
        rcases List.mem_append.mp hf with hf | hf
        · exact ⟨f, hf, hfo⟩
        · -- the new line belongs to another entry's request
          obtain rfl := List.mem_singleton.mp hf
          obtain ⟨m, _, hm, -⟩ := k.owned i hi
          have hfo : s.owner s.curr = s.owner i := hfo
          exact absurd (k.owners.inj i s.curr m hm (hfo.trans hm)) hic
  · rw [hlog]
    intro f hf
    rcases List.mem_append.mp hf with hf | hf
    · exact k.answered f hf
    · obtain rfl := List.mem_singleton.mp hf
      exact ⟨n, c, hn, hq, hfills.target ▸ ht, hfills.answers⟩
  · rw [hlog, List.map_append, List.map_singleton]
    refine List.nodup_append.mpr ⟨k.once, List.nodup_singleton _, ?_⟩
    intro o ho o' ho' he
    obtain ⟨f, hf, rfl⟩ := List.mem_map.mp ho
    obtain rfl := List.mem_singleton.mp ho'
    exact hnew f hf he
  · rw [hlog]
    intro m hm
    obtain ⟨f, hf, hfo⟩ := k.reclaimedDone m hm
    exact ⟨f, List.mem_append_left _ hf, hfo⟩
  · change (workerTurn s.worker s.curr now).2.1 = noEntry ∨ (workerTurn s.worker s.curr now).2.1 ∈ used ++ io
    rw [t.next]
    exact k.next_used hcur

theorem TraceOk.turn (k : TraceOk s fresh used io) (h : s.curr ≠ noEntry) (now : Nat) :
    TraceOk (s.turn now) fresh used io := by
  have hcur : s.curr ∈ used ++ io := k.cursor.resolve_left h
  cases hc : (s.worker.workQueue s.curr).isCompleted with
  | true =>
    apply k.turn_quiet hcur
    · rw [workerTurn_skip hc]
    · rw [workerTurn_skip hc]
      rfl
  | false =>
    rcases Nat.lt_or_ge now (s.worker.workQueue s.curr).nsecsTarget with ht | ht
    · apply k.turn_quiet hcur
      · rw [workerTurn_wait hc ht]
        simp [IoWorker.set]
      · rw [workerTurn_wait hc ht]
        exact copyActions_finishes _
    · exact k.turn_finish hcur hc ht

theorem TraceReachable.ok (h : TraceReachable s) : ∃ fresh used io, TraceOk s fresh used io := by
  induction h with
  | init => exact ⟨_, _, _, init_traceOk⟩
  | call _ c hturn hworker hfree h ih =>
    obtain ⟨fresh, used, io, k⟩ := ih
    exact k.place c (c.run_placed hturn hworker hfree h)
  | reclaim _ h ih =>
    obtain ⟨fresh, used, io, k⟩ := ih
    exact ⟨fresh, k.reclaim h⟩
  | start _ _ ih =>
    obtain ⟨fresh, used, io, k⟩ := ih
    exact ⟨fresh, used, io, k.start⟩
  | turn _ h now _ ih =>
    obtain ⟨fresh, used, io, k⟩ := ih
    exact ⟨fresh, used, io, k.turn h now⟩

/-- How often the call of number `n` has been answered. -/
def answers (s : Trace) (n : Nat) : Nat := (s.log.map Finished.owner).count (some n)

/-- In every interleaving a call is answered at most once, exactly once when its entry has been
reclaimed, with the ids, the status and the bytes that it was given, and not before its target time;
and the cursor stands on an entry that has been placed. -/
theorem traceReachable_exactly_once {s : Trace} (h : TraceReachable s) :
    (∀ n, answers s n ≤ 1) ∧ (∀ n ∈ s.reclaimed, answers s n = 1) ∧
    (∀ f ∈ s.log, ∃ n c, f.owner = some n ∧ s.enqueued[n]? = some c ∧ c.nsecsTarget ≤ f.time ∧
      Answers c f.action) ∧
    (s.curr = noEntry ∨ ∃ n, s.owner s.curr = some n) := by
  obtain ⟨fresh, used, io, k⟩ := h.ok
  refine ⟨fun n => List.nodup_iff_count_le_one.mp k.once (some n), ?_, k.answered, ?_⟩
  · intro n hn
    obtain ⟨f, hf, hfo⟩ := k.reclaimedDone n hn
    exact List.count_eq_one_of_mem k.once (List.mem_map.mpr ⟨f, hf, hfo⟩)
  · rcases k.cursor with hc | hc
    · exact Or.inl hc
    · obtain ⟨n, _, hn, -⟩ := k.owned s.curr hc
      exact Or.inr ⟨n, hn⟩

/-- A request for time 100 and a release for time 60, which goes before it; the worker visits the request
at 50 and both at 120, and they are reclaimed. -/
theorem traceReachable_exactly_once_request : ∃ s, TraceReachable s ∧
    s.enqueued = [.enqueueIoReq 1 1 0 7 0 0 ⟨2, 100⟩, .scheduleInternalOperation 1 60 3 4096 0] ∧
    s.reclaimed = [1, 0] ∧ answers s 0 = 1 ∧ answers s 1 = 1 ∧
    ∀ f ∈ s.log, ∃ n c, f.owner = some n ∧ s.enqueued[n]? = some c ∧ c.nsecsTarget ≤ f.time ∧
      Answers c f.action := by
  have h₁ : TraceReachable _ := .place .init (.enqueueIoReq 1 1 0 7 0 0 ⟨2, 100⟩) rfl
  have h₂ : TraceReachable _ := .start h₁ rfl
  have h₃ : TraceReachable _ := .place h₂ (.scheduleInternalOperation 1 60 3 4096 0) rfl
  -- the cursor has read the head of the list before the release went in there
  have h₄ : TraceReachable _ := .turn h₃ (by decide) 50 (by decide)
  have h₅ : TraceReachable _ := .start h₄ rfl
  have h₆ : TraceReachable _ := .turn h₅ (by decide) 120 (by decide)
  have h₇ : TraceReachable _ := .turn h₆ (by decide) 120 (by decide)
  have h₈ : TraceReachable _ := .reclaim h₇ rfl
  obtain ⟨-, honce, hanswers, -⟩ := traceReachable_exactly_once h₈
  exact ⟨_, h₈, rfl, rfl, honce 0 (by decide), honce 1 (by decide), hanswers⟩

end NVMeVirt
