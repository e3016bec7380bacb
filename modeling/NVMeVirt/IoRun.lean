import NVMeVirt.IoLists

/-!
# Runs of the work queues

What one call of the dispatcher does to all workers, and the states that any sequence of
calls can reach while the workers set the flags of their entries.
-/

namespace NVMeVirt
set_option autoImplicit false
open Outcome Chains

variable {dev dev' : IoDev} {worker : IoWorker} {free io : List Nat}

/-- Irreducible: its `2^32 - 1` must never be counted out. -/
@[irreducible] def workerOf (dev : IoDev) (sqid : Nat) : Nat := u32 (sqid + (2^32 - 1)) % dev.nrIoWorkers

theorem getIoWorker_ok (h : 0 < dev.nrIoWorkers) (sqid : Nat) :
    getIoWorker dev sqid = .ok (workerOf dev sqid) := by
  unfold getIoWorker divisor workerOf
  rw [if_neg (by omega)]
  rfl

def QueuesOk (dev : IoDev) : Prop := ∀ turn, ∃ free io, Lists (dev.ioWorkers turn) free io

def IoDev.place (dev : IoDev) (turn : Nat) (worker : IoWorker) : IoDev :=
  { dev with
    ioWorkerTurn := if turn + 1 = dev.nrIoWorkers then 0 else turn + 1
    ioWorkers := Function.update dev.ioWorkers turn worker }

theorem IoDev.place_nrIoWorkers {turn : Nat} :
    (dev.place turn worker).nrIoWorkers = dev.nrIoWorkers := rfl

theorem IoDev.place_self {turn : Nat} : (dev.place turn worker).ioWorkers turn = worker := by
  simp [place]

theorem IoDev.place_other {turn i : Nat} (h : i ≠ turn) :
    (dev.place turn worker).ioWorkers i = dev.ioWorkers i := by
  simp [place, h]

theorem placeWork_none (h : 0 < dev.nrIoWorkers) {sqid : Nat} {fill : IoWork → IoWork} {t : Nat}
    (hr : placeEntry (dev.ioWorkers (workerOf dev sqid)) fill t = .ok none) :
    placeWork dev sqid fill t = .ok dev := by
  unfold placeWork
  rw [getIoWorker_ok h, ok_bind, hr, ok_bind]
  rfl

theorem placeWork_some (h : 0 < dev.nrIoWorkers) {sqid : Nat} {fill : IoWork → IoWork} {t : Nat}
    (hr : placeEntry (dev.ioWorkers (workerOf dev sqid)) fill t = .ok (some worker)) :
    placeWork dev sqid fill t = .ok (dev.place (workerOf dev sqid) worker) := by
  unfold placeWork
  rw [getIoWorker_ok h, ok_bind, hr, ok_bind]
  rfl

/-- A call of the dispatcher that returns has found no room, or has placed the work. -/
theorem placeWork_cases {sqid t : Nat} {fill : IoWork → IoWork} (h : placeWork dev sqid fill t = .ok dev') :
    dev' = dev ∨ ∃ turn worker', turn = workerOf dev sqid ∧
      placeEntry (dev.ioWorkers turn) fill t = .ok (some worker') ∧ dev' = dev.place turn worker' := by
  by_cases hn : 0 < dev.nrIoWorkers
  · unfold placeWork at h
    rw [getIoWorker_ok hn, ok_bind] at h
    obtain ⟨placed, hp, h⟩ := bind_eq_ok.mp h
    cases placed with
    | none => exact Or.inl (Except.ok.inj h).symm
    | some worker' => exact Or.inr ⟨_, worker', rfl, hp, (Except.ok.inj h).symm⟩
  · have herr : placeWork dev sqid fill t = .error .divideError := by
      unfold placeWork getIoWorker divisor
      rw [if_pos (Nat.eq_zero_of_not_pos hn)]
      rfl
    rw [herr] at h
    cases h

/-- A call of the dispatcher returns and moves one worker's head entry, or finds no room there. -/
theorem placeWork_spec (h : 0 < dev.nrIoWorkers) (k : QueuesOk dev) (sqid : Nat)
    {fill : IoWork → IoWork} (hfill : Unlinks fill) (t : Nat) :
    ∃ dev', placeWork dev sqid fill t = .ok dev' ∧ dev'.nrIoWorkers = dev.nrIoWorkers ∧
      (∀ turn, turn ≠ workerOf dev sqid → dev'.ioWorkers turn = dev.ioWorkers turn) ∧
      ∀ free io, Lists (dev.ioWorkers (workerOf dev sqid)) free io →
        (free.length = 1 ∧ dev' = dev) ∨
        (2 ≤ free.length ∧ ∃ e free' io', Placed (dev.ioWorkers (workerOf dev sqid)) fill free io e
          (dev'.ioWorkers (workerOf dev sqid)) free' io') := by
  obtain ⟨free, io, kl⟩ := k (workerOf dev sqid)
  rcases placeEntry_spec kl hfill t with ⟨hlen, hp⟩ | ⟨hlen, e, worker', free', io', hp, hplaced⟩
  · refine ⟨dev, placeWork_none h hp, rfl, fun _ _ => rfl, ?_⟩
    intro free₁ io₁ kl₁
    rw [(kl.unique kl₁).1] at hlen
    exact Or.inl ⟨hlen, rfl⟩
  · refine ⟨_, placeWork_some h hp, IoDev.place_nrIoWorkers, ?_, ?_⟩
    · intro turn hturn
      exact IoDev.place_other hturn
    · intro free₁ io₁ kl₁
      obtain ⟨rfl, rfl⟩ := kl.unique kl₁
      refine Or.inr ⟨hlen, e, free', io', ?_⟩
      rw [IoDev.place_self]
      exact hplaced

theorem placeWork_keeps (k : QueuesOk dev) {sqid : Nat} {fill : IoWork → IoWork} (hfill : Unlinks fill)
    {t : Nat} (h : placeWork dev sqid fill t = .ok dev') : QueuesOk dev' := by
  rcases placeWork_cases h with rfl | ⟨target, worker', -, hp, rfl⟩
  · exact k
  intro turn
  by_cases hturn : turn = target
  · subst hturn
    obtain ⟨free, io, kl⟩ := k turn
    rw [IoDev.place_self]
    rcases placeEntry_spec kl hfill t with ⟨-, hnone⟩ | ⟨-, e, worker₁, free', io', hsome, placed⟩
    · rw [hp] at hnone
      cases hnone
    · rw [hp] at hsome
      obtain rfl := Option.some.inj (Except.ok.inj hsome)
      exact ⟨free', io', placed.lists⟩
  · rw [IoDev.place_other hturn]
    exact k turn

/-- Reclaim returns; the workers up to `nr_io_workers` have been visited. -/
theorem reclaimCompletedReqs_spec (k : QueuesOk dev) : ∃ dev', reclaimCompletedReqs dev = .ok dev' ∧
    dev'.nrIoWorkers = dev.nrIoWorkers ∧ ∀ turn free io, Lists (dev.ioWorkers turn) free io →
      if turn < dev.nrIoWorkers then
        ∃ done left, io = done ++ left ∧ Reclaimed (dev.ioWorkers turn) free done left (dev'.ioWorkers turn)
      else dev'.ioWorkers turn = dev.ioWorkers turn := by
  let I : Nat → IoDev → Prop := fun n d => d.nrIoWorkers = dev.nrIoWorkers ∧
    ∀ turn free io, Lists (dev.ioWorkers turn) free io →
      if turn < n then
        ∃ done left, io = done ++ left ∧ Reclaimed (dev.ioWorkers turn) free done left (d.ioWorkers turn)
      else d.ioWorkers turn = dev.ioWorkers turn
  have hsat := upto_sat (Q := fun _ => False)
    (f := fun turn dev => do
      let worker ← reclaimWorker (dev.ioWorkers turn)
      return { dev with ioWorkers := Function.update dev.ioWorkers turn worker })
    I dev.nrIoWorkers (s := dev) ⟨rfl, fun turn free io _ => by simp⟩ (by
      intro n hn d hd
      obtain ⟨free, io, kl⟩ := k n
      have hsame := hd.2 n free io kl
      rw [if_neg (Nat.lt_irrefl n)] at hsame
      obtain ⟨worker', done, left, hw, hio, hr⟩ := reclaimWorker_spec kl
      rw [hsame, hw]
      refine ⟨hd.1, ?_⟩
      intro turn free₁ io₁ kl₁
      by_cases hturn : turn = n
      · subst hturn
        obtain ⟨rfl, rfl⟩ := kl.unique kl₁
        rw [if_pos (Nat.lt_succ_self turn)]
        exact ⟨done, left, hio, by simpa using hr⟩
      · have hold := hd.2 turn free₁ io₁ kl₁
        simp only [Function.update_of_ne hturn]
        by_cases hlt : turn < n
        · rw [if_pos hlt] at hold
          rw [if_pos (by omega)]
          exact hold
        · rw [if_neg hlt] at hold
          rw [if_neg (by omega)]
          exact hold)
  obtain ⟨d, hd, hI⟩ := hsat.returns (fun _ h => h)
  exact ⟨d, hd, hI⟩

theorem reclaimCompletedReqs_keeps (k : QueuesOk dev) (h : reclaimCompletedReqs dev = .ok dev') :
    QueuesOk dev' := by
  obtain ⟨d, hd, -, hspec⟩ := reclaimCompletedReqs_spec k
  obtain rfl := Except.ok.inj (h.symm.trans hd)
  intro turn
  obtain ⟨free, io, kl⟩ := k turn
  have hs := hspec turn free io kl
  by_cases hlt : turn < dev.nrIoWorkers
  · rw [if_pos hlt] at hs
    obtain ⟨done, left, -, hr⟩ := hs
    exact ⟨free ++ done, left, hr.lists⟩
  · rw [if_neg hlt] at hs
    rw [hs]
    exact ⟨free, io, kl⟩

/-- What a worker thread does to its queue: it sets flags and the latest time. -/
def IoWorker.flagged (worker : IoWorker) (copied completed : Nat → Bool) (t : Nat) : IoWorker :=
  { worker with
    workQueue := fun i => { worker.workQueue i with isCopied := copied i, isCompleted := completed i }
    latestNsecs := t }

def IoDev.flag (dev : IoDev) (turn : Nat) (copied completed : Nat → Bool) (t : Nat) : IoDev :=
  { dev with ioWorkers :=
      Function.update dev.ioWorkers turn ((dev.ioWorkers turn).flagged copied completed t) }

/-- The states of the queues between calls of the dispatcher and updates of the workers. -/
inductive QueueReachable (nrIoWorkers : Nat) : IoDev → Prop where
  | init : QueueReachable nrIoWorkers (nvmevIoWorkerInit nrIoWorkers)
  | enqueue {dev dev' : IoDev} {sqid cqid sqEntry commandId nsecsStart now : Nat} {ret : NvmevResult}
      (hr : QueueReachable nrIoWorkers dev)
      (h : enqueueIoReq dev sqid cqid sqEntry commandId nsecsStart now ret = .ok dev') :
      QueueReachable nrIoWorkers dev'
  | schedule {dev dev' : IoDev} {sqid nsecsTarget writeBuffer buffsToRelease now : Nat}
      (hr : QueueReachable nrIoWorkers dev)
      (h : scheduleInternalOperation dev sqid nsecsTarget writeBuffer buffsToRelease now = .ok dev') :
      QueueReachable nrIoWorkers dev'
  | reclaim {dev dev' : IoDev} (hr : QueueReachable nrIoWorkers dev)
      (h : reclaimCompletedReqs dev = .ok dev') : QueueReachable nrIoWorkers dev'
  | worker {dev : IoDev} (hr : QueueReachable nrIoWorkers dev) (turn : Nat)
      (copied completed : Nat → Bool) (t : Nat) :
      QueueReachable nrIoWorkers (dev.flag turn copied completed t)

theorem initWorker_path {n i : Nat} (h : i + n = nrMaxParallelIo) (hn : 0 < n) :
    Path initWorker.next i (List.range' i n) noEntry := by
  induction n generalizing i with
  | zero => exact absurd hn (Nat.lt_irrefl 0)
  | succ n ih =>
    refine ⟨rfl, ?_⟩
    rw [nrMaxParallelIo] at h
    have hi : i + 1 < 2^32 := by omega
    by_cases hz : n = 0
    · have hlast : i = 16384 - 1 := by omega
      simp [hz, IoWorker.next, initWorker, initWork, nrMaxParallelIo, hlast]
    · have hmid : i ≠ 16384 - 1 := by omega
      have hnext : initWorker.next i = i + 1 := by
        change (if i = 16384 - 1 then noEntry else u32 (i + 1)) = i + 1
        rw [if_neg hmid]
        exact Nat.mod_eq_of_lt hi
      rw [hnext]
      exact ih (by rw [nrMaxParallelIo]; omega) (by omega)

theorem initWorker_lists : Lists initWorker (List.range nrMaxParallelIo) [] := by
  refine ⟨?_, ?_, rfl, fun h => absurd rfl h, ?_⟩
  · rw [List.range_eq_range']
    exact initWorker_path (Nat.zero_add _) (by rw [nrMaxParallelIo]; omega)
  · rw [List.getLast?_range]
    rfl
  · rw [List.append_nil]

theorem QueueReachable.queuesOk {nrIoWorkers : Nat} (h : QueueReachable nrIoWorkers dev) :
    QueuesOk dev := by
  induction h with
  | init => exact fun _ => ⟨_, _, initWorker_lists⟩
  | enqueue _ h ih => exact placeWork_keeps ih (requestWork_unlinks _ _ _ _ _ _ _) h
  | schedule _ h ih => exact placeWork_keeps ih (internalWork_unlinks _ _ _ _ _) h
  | reclaim _ h ih => exact reclaimCompletedReqs_keeps ih h
  | @worker dev _ turn copied completed t ih =>
    intro i
    obtain ⟨free, io, kl⟩ := ih i
    unfold IoDev.flag
    by_cases hi : i = turn
    · subst hi
      simp only [Function.update_self]
      exact ⟨free, io, kl.congr rfl rfl rfl rfl rfl rfl⟩
    · simp only [Function.update_of_ne hi]
      exact ⟨free, io, kl⟩

/-- The index lists of a worker represent the lists `free` and `io`. -/
structure Represents (worker : IoWorker) (free io : List Nat) : Prop where
  freeChain : Path worker.next worker.freeSeq free noEntry
  ioChain : Path worker.next worker.ioSeq io noEntry
  once : ∀ i, (free ++ io).count i = if i < nrMaxParallelIo then 1 else 0
  inverse : ∀ i ∈ io, ∀ j ∈ io, worker.next i = j ↔ worker.prev j = i
  first : worker.ioSeq ≠ noEntry → worker.prev worker.ioSeq = noEntry
  freeTail : free.getLast? = some worker.freeSeqEnd
  ioTail : worker.ioSeq ≠ noEntry → io.getLast? = some worker.ioSeqEnd
  room : free ≠ []

theorem Lists.represents (k : Lists worker free io) : Represents worker free io := by
  refine ⟨k.freePath, k.ioPath, ?_, ?_, ?_, k.freeEnd, ?_, k.free_ne_nil⟩
  · intro i
    rw [k.all.count_eq]
    by_cases hi : i < nrMaxParallelIo
    · rw [if_pos hi]
      exact List.count_eq_one_of_mem List.nodup_range (List.mem_range.mpr hi)
    · rw [if_neg hi]
      exact List.count_eq_zero_of_not_mem (fun h => hi (List.mem_range.mp h))
  · intro i hi j hj
    exact k.ioPath.inverse (k.ioBack (List.ne_nil_of_mem hi)) k.noEntry_io hi hj
  · intro h
    have hne : io ≠ [] := fun he => h (k.io_nil_iff.mp he)
    obtain ⟨x, l, rfl⟩ := List.exists_cons_of_ne_nil hne
    have hback := k.ioBack hne
    rw [List.reverse_cons] at hback
    rw [k.ioPath.1]
    exact (path_snoc.mp hback).2
  · intro h
    have hne : io ≠ [] := fun he => h (k.io_nil_iff.mp he)
    rcases List.eq_nil_or_concat io with he | ⟨l, x, rfl⟩
    · exact absurd he hne
    · have hback := k.ioBack hne
      rw [List.concat_eq_append] at hback ⊢
      rw [List.reverse_append] at hback
      rw [List.getLast?_concat, hback.1]

/-- In every reachable state the two lists of every worker are well represented, the check
in the allocator cannot fail, and the next call of the dispatcher returns. -/
theorem queueReachable_represents {nrIoWorkers : Nat} {dev : IoDev}
    (h : QueueReachable nrIoWorkers dev) (turn : Nat) :
    (∃ free io, Represents (dev.ioWorkers turn) free io) ∧
    (∃ r, allocateEntry (dev.ioWorkers turn) = .ok r) ∧
    (∀ fill t, Unlinks fill → ∃ r, placeEntry (dev.ioWorkers turn) fill t = .ok r) ∧
    (∃ dev', reclaimCompletedReqs dev = .ok dev') := by
  obtain ⟨free, io, kl⟩ := h.queuesOk turn
  obtain ⟨e, rest, hfree⟩ := List.exists_cons_of_ne_nil kl.free_ne_nil
  obtain ⟨dev', hdev', -⟩ := reclaimCompletedReqs_spec h.queuesOk
  refine ⟨⟨free, io, kl.represents⟩, ⟨_, allocateEntry_spec kl hfree⟩, ?_, ⟨dev', hdev'⟩⟩
  intro fill t hfill
  rcases placeEntry_spec kl hfill t with ⟨-, hp⟩ | ⟨-, e, worker', free', io', hp, -⟩
  · exact ⟨_, hp⟩
  · exact ⟨_, hp⟩

/-- One worker, two requests and a release out of order; the request that is due first is completed
and reclaimed, and one more enqueued before the others. -/
theorem queueReachable_represents_request : ∃ dev, QueueReachable 1 dev ∧
    (dev.ioWorkers 0).ioSeq = 3 ∧ (dev.ioWorkers 0).next 3 = 2 ∧ (dev.ioWorkers 0).next 2 = 0 ∧
    (dev.ioWorkers 0).next 0 = noEntry ∧ (dev.ioWorkers 0).freeSeqEnd = 1 ∧
    ∃ free io, Represents (dev.ioWorkers 0) free io := by
  obtain ⟨dev, hrun, hp⟩ := exists_of_check (show check (fun (dev : IoDev) =>
      decide ((dev.ioWorkers 0).ioSeq = 3 ∧ (dev.ioWorkers 0).next 3 = 2 ∧ (dev.ioWorkers 0).next 2 = 0 ∧
        (dev.ioWorkers 0).next 0 = noEntry ∧ (dev.ioWorkers 0).freeSeqEnd = 1)) (do
    let d₁ ← enqueueIoReq (nvmevIoWorkerInit 1) 1 1 0 7 0 0 ⟨0, 100⟩
    let d₂ ← enqueueIoReq d₁ 1 1 1 8 0 0 ⟨0, 50⟩
    let d₃ ← scheduleInternalOperation d₂ 1 75 0 4096 0
    let d₄ ← reclaimCompletedReqs (d₃.flag 0 (fun i => i = 1) (fun i => i = 1) 60)
    enqueueIoReq d₄ 1 1 2 9 0 0 ⟨0, 70⟩) = true by decide +kernel)
  obtain ⟨d₁, h₁, hrun⟩ := bind_eq_ok.mp hrun
  obtain ⟨d₂, h₂, hrun⟩ := bind_eq_ok.mp hrun
  obtain ⟨d₃, h₃, hrun⟩ := bind_eq_ok.mp hrun
  obtain ⟨d₄, h₄, h₅⟩ := bind_eq_ok.mp hrun
  have h : QueueReachable 1 dev :=
    ((((QueueReachable.init.enqueue h₁).enqueue h₂).schedule h₃).worker 0 _ _ 60 |>.reclaim h₄).enqueue h₅
  obtain ⟨hfirst, h₃₂, h₂₀, hlast, hfree⟩ := of_decide_eq_true hp
  exact ⟨dev, h, hfirst, h₃₂, h₂₀, hlast, hfree, (queueReachable_represents h 0).1⟩

end NVMeVirt
