import NVMeVirt.IoTrace
import NVMeVirt.IoDispatch
import NVMeVirt.Lib.Floor

/-!
# The order of the requests in flight

The search for the place of a new entry stops at the first entry from the tail that is already
due, so the list is sorted only up to the latest time of its worker, and that time moves on
between the calls of the dispatcher.
-/

namespace NVMeVirt
set_option autoImplicit false
open Outcome Floor

def IoWorker.target (worker : IoWorker) (i : Nat) : Nat := (worker.workQueue i).nsecsTarget

variable {worker worker' : IoWorker} {free io : List Nat} {stamp : Nat → Nat} {n : Nat}

theorem target_congr {i : Nat} (h : (worker'.workQueue i).data = (worker.workQueue i).data) :
    worker'.target i = worker.target i :=
  calc worker'.target i = (worker'.workQueue i).data.nsecsTarget := rfl
    _ = (worker.workQueue i).data.nsecsTarget := by rw [h]
    _ = worker.target i := rfl

theorem WorkCall.fill_target (c : WorkCall) (w : IoWork) : (c.fill w).nsecsTarget = c.nsecsTarget := by
  cases c with
  | enqueueIoReq => rfl
  | scheduleInternalOperation => rfl

theorem Lists.freeSeq_eq (k : Lists worker free io) {e : Nat} {rest : List Nat} (h : free = e :: rest) :
    worker.freeSeq = e := by
  have hpath := k.freePath
  rw [h] at hpath
  exact hpath.1

/-- The list in flight is sorted up to the latest time. `stamp` has the number of the insertion
that filled an entry; there have been `n` of them. -/
structure InOrder (worker : IoWorker) (stamp : Nat → Nat) (n : Nat) (free io : List Nat) : Prop where
  lists : Lists worker free io
  sorted : Sorted worker.latestNsecs worker.target io
  stamped : Stamped worker.target stamp io
  past : ∀ i ∈ io, stamp i < n

namespace InOrder

theorem restamp (k : InOrder worker stamp n free io) :
    InOrder worker (Function.update stamp worker.freeSeq n) (n + 1) free io := by
  have hsame : ∀ i ∈ io, Function.update stamp worker.freeSeq n i = stamp i := by
    intro i hi
    obtain ⟨e, rest, hfree⟩ := List.exists_cons_of_ne_nil k.lists.free_ne_nil
    have hf : worker.freeSeq ∈ free := by simp [k.lists.freeSeq_eq hfree, hfree]
    refine Function.update_of_ne ?_ _ _
    rintro rfl
    exact k.lists.disjoint hf hi
  refine ⟨k.lists, k.sorted, k.stamped.congr (fun _ _ => rfl) hsame, ?_⟩
  intro i hi
  rw [hsame i hi]
  exact Nat.lt_succ_of_lt (k.past i hi)

theorem later (k : InOrder worker stamp n free io) : InOrder worker stamp (n + 1) free io :=
  ⟨k.lists, k.sorted, k.stamped, fun i hi => Nat.lt_succ_of_lt (k.past i hi)⟩

/-- The new entry goes in behind all that it has to follow. -/
theorem place (k : InOrder worker stamp n free io) (c : WorkCall)
    (hp : placeEntry worker c.fill c.nsecsTarget = .ok (some worker')) :
    ∃ free' io', InOrder worker' (Function.update stamp worker.freeSeq n) (n + 1) free' io' := by
  have k' := k.restamp
  obtain ⟨e, rest, hfree⟩ := List.exists_cons_of_ne_nil k.lists.free_ne_nil
  have hhead := k.lists.freeSeq_eq hfree
  by_cases hrest : rest = []
  · subst hrest
    rw [placeEntry_full k.lists hfree c.fill c.nsecsTarget] at hp
    cases hp
  obtain ⟨worker₁, before, after, h₁, hio, hsought, placed⟩ :=
    placeEntry_room k.lists hfree hrest c.unlinks c.nsecsTarget
  rw [hp] at h₁
  obtain rfl := Option.some.inj (Except.ok.inj h₁)
  have he : e ∉ io := k.lists.disjoint (by simp [hfree])
  have hnew : worker'.target e = c.nsecsTarget :=
    (congrArg IoWork.nsecsTarget placed.entry).trans (c.fill_target _)
  have hold : ∀ i ∈ io, worker'.target i = worker.target i := by
    intro i hi
    refine target_congr (placed.others i ?_)
    rintro rfl
    exact he hi
  have hsorted : Sorted worker'.latestNsecs worker'.target io := by
    rw [placed.latestNsecs]
    exact k.sorted.congr hold
  have hstamped := k'.stamped.congr hold (fun _ _ => rfl)
  have hlast : ∀ z ∈ before.getLast?, UpTo worker'.latestNsecs (worker'.target z) (worker'.target e) := by
    intro z hz
    have hm : z ∈ io := hio ▸ List.mem_append_left after (List.mem_of_mem_getLast? hz)
    rw [hold z hm, hnew, placed.latestNsecs]
    exact hsought.stop z hz
  have hafter : ∀ j ∈ after, ¬ UpTo worker'.latestNsecs (worker'.target j) (worker'.target e) := by
    intro j hj
    have hm : j ∈ io := hio ▸ List.mem_append_right before hj
    rw [hold j hm, hnew, placed.latestNsecs]
    exact hsought.past j hj
  have hstamp : Function.update stamp worker.freeSeq n e = n := by rw [hhead, Function.update_self]
  rw [hio] at hsorted hstamped
  refine ⟨rest, _, placed.lists, hsorted.insert hlast hafter, hstamped.insert ?_ hafter, ?_⟩
  · intro i hi
    have hm : i ∈ io := hio ▸ List.mem_append_left after hi
    have hie : i ≠ e := by
      rintro rfl
      exact he hm
    rw [hstamp, hhead, Function.update_of_ne hie]
    exact k.past i hm
  · intro i hi
    rcases List.mem_cons.mp (placed.io.mem_iff.mp hi) with rfl | hm
    · rw [hstamp]
      exact Nat.lt_succ_self n
    · exact k'.past i hm

theorem reclaim (k : InOrder worker stamp n free io) {done left : List Nat} (hio : io = done ++ left)
    (r : Reclaimed worker free done left worker') : InOrder worker' stamp n (free ++ done) left := by
  have hsub : left.Sublist io := hio ▸ List.sublist_append_right done left
  have hold : ∀ i ∈ left, worker'.target i = worker.target i := fun i _ => target_congr (r.data i)
  refine ⟨r.lists, ?_, ?_, fun i hi => k.past i (hsub.mem hi)⟩
  · rw [r.latestNsecs]
    exact Sorted.congr (k.sorted.sublist hsub) hold
  · exact Stamped.congr (k.stamped.sublist hsub) hold (fun _ _ => rfl)

theorem flagged (k : InOrder worker stamp n free io) (copied completed : Nat → Bool) {t : Nat}
    (ht : worker.latestNsecs ≤ t) : InOrder (worker.flagged copied completed t) stamp n free io :=
  ⟨k.lists.congr rfl rfl rfl rfl rfl rfl, k.sorted.mono ht, k.stamped, k.past⟩

end InOrder

/-- The work queues, the number of insertions so far, and for each entry of each worker the
number of the insertion that filled it last. -/
structure StampedDev where
  dev : IoDev
  inserted : Nat
  stamp : Nat → Nat → Nat

/-- The allocator takes the head of the worker's free list. Without room that entry stays free. -/
def StampedDev.insert (s : StampedDev) (sqid : Nat) (dev' : IoDev) : StampedDev where
  dev := dev'
  inserted := s.inserted + 1
  stamp := Function.update s.stamp (workerOf s.dev sqid)
    (Function.update (s.stamp (workerOf s.dev sqid)) (s.dev.ioWorkers (workerOf s.dev sqid)).freeSeq
      s.inserted)

/-- Every sequence of insertions, reclaims and updates by the worker threads whose times do not
go back. -/
inductive StampedReachable (nrIoWorkers : Nat) : StampedDev → Prop where
  | init : StampedReachable nrIoWorkers ⟨nvmevIoWorkerInit nrIoWorkers, 0, fun _ _ => 0⟩
  | enqueue {s : StampedDev} {dev' : IoDev} {sqid cqid sqEntry commandId nsecsStart now : Nat}
      {ret : NvmevResult} (hs : StampedReachable nrIoWorkers s)
      (h : enqueueIoReq s.dev sqid cqid sqEntry commandId nsecsStart now ret = .ok dev') :
      StampedReachable nrIoWorkers (s.insert sqid dev')
  | schedule {s : StampedDev} {dev' : IoDev} {sqid nsecsTarget writeBuffer buffsToRelease now : Nat}
      (hs : StampedReachable nrIoWorkers s)
      (h : scheduleInternalOperation s.dev sqid nsecsTarget writeBuffer buffsToRelease now = .ok dev') :
      StampedReachable nrIoWorkers (s.insert sqid dev')
  | reclaim {s : StampedDev} {dev' : IoDev} (hs : StampedReachable nrIoWorkers s)
      (h : reclaimCompletedReqs s.dev = .ok dev') :
      StampedReachable nrIoWorkers { s with dev := dev' }
  | worker {s : StampedDev} (hs : StampedReachable nrIoWorkers s) (turn : Nat)
      (copied completed : Nat → Bool) (t : Nat) (ht : (s.dev.ioWorkers turn).latestNsecs ≤ t) :
      StampedReachable nrIoWorkers { s with dev := s.dev.flag turn copied completed t }

def StampedDev.Ordered (s : StampedDev) : Prop :=
  ∀ turn, ∃ free io, InOrder (s.dev.ioWorkers turn) (s.stamp turn) s.inserted free io

namespace StampedDev.Ordered
variable {s : StampedDev} {dev' : IoDev}

theorem insert (k : s.Ordered) (c : WorkCall) (h : c.run s.dev = .ok dev') :
    (s.insert c.sqid dev').Ordered := by
  rw [c.run_eq] at h
  intro turn
  obtain ⟨free, io, kt⟩ := k turn
  unfold StampedDev.insert
  rcases placeWork_cases h with rfl | ⟨target, worker', htarget, hp, rfl⟩
  · by_cases hturn : turn = workerOf s.dev c.sqid
    · rw [← hturn]
      simp only [Function.update_self]
      exact ⟨free, io, kt.restamp⟩
    · simp only [Function.update_of_ne hturn]
      exact ⟨free, io, kt.later⟩
  · rw [← htarget]
    by_cases hturn : turn = target
    · subst hturn
      simp only [Function.update_self, IoDev.place_self]
      exact kt.place c hp
    · simp only [Function.update_of_ne hturn, IoDev.place_other hturn]
      exact ⟨free, io, kt.later⟩

theorem reclaim (k : s.Ordered) (h : reclaimCompletedReqs s.dev = .ok dev') :
    StampedDev.Ordered { s with dev := dev' } := by
  have hq : QueuesOk s.dev := by
    intro turn
    obtain ⟨free, io, kt⟩ := k turn
    exact ⟨free, io, kt.lists⟩
  obtain ⟨d, hd, -, hspec⟩ := reclaimCompletedReqs_spec hq
  obtain rfl := Except.ok.inj (h.symm.trans hd)
  intro turn
  obtain ⟨free, io, kt⟩ := k turn
  have hs := hspec turn free io kt.lists
  by_cases hlt : turn < s.dev.nrIoWorkers
  · rw [if_pos hlt] at hs
    obtain ⟨done, left, hio, r⟩ := hs
    exact ⟨free ++ done, left, kt.reclaim hio r⟩
  · rw [if_neg hlt] at hs
    change ∃ free io, InOrder (dev'.ioWorkers turn) _ _ free io
    rw [hs]
    exact ⟨free, io, kt⟩

theorem flag (k : s.Ordered) (turn : Nat) (copied completed : Nat → Bool) {t : Nat}
    (ht : (s.dev.ioWorkers turn).latestNsecs ≤ t) :
    StampedDev.Ordered { s with dev := s.dev.flag turn copied completed t } := by
  intro i
  obtain ⟨free, io, ki⟩ := k i
  refine ⟨free, io, ?_⟩
  unfold IoDev.flag
  by_cases hi : i = turn
  · subst hi
    simp only [Function.update_self]
    exact ki.flagged copied completed ht
  · simp only [Function.update_of_ne hi]
    exact ki

end StampedDev.Ordered

theorem StampedReachable.ordered {nrIoWorkers : Nat} {s : StampedDev} (h : StampedReachable nrIoWorkers s) :
    s.Ordered := by
  induction h with
  | init =>
    exact fun _ => ⟨_, [], initWorker_lists, List.Pairwise.nil, List.Pairwise.nil,
      fun _ hi => absurd hi List.not_mem_nil⟩
  | enqueue _ h ih => exact ih.insert (.enqueueIoReq _ _ _ _ _ _ _) h
  | schedule _ h ih => exact ih.insert (.scheduleInternalOperation _ _ _ _ _) h
  | reclaim _ h ih => exact ih.reclaim h
  | worker _ turn copied completed t ht ih => exact ih.flag turn copied completed ht

/-- An entry in flight has a target no later than those behind it or than the latest time, and
entries with one target stand in the order of their insertions. -/
theorem inFlight_ordered {nrIoWorkers : Nat} {s : StampedDev} (h : StampedReachable nrIoWorkers s)
    (turn : Nat) : (inFlight (s.dev.ioWorkers turn)).Pairwise fun i j =>
      (s.dev.ioWorkers turn).target i ≤
        max ((s.dev.ioWorkers turn).target j) (s.dev.ioWorkers turn).latestNsecs ∧
      ((s.dev.ioWorkers turn).target i = (s.dev.ioWorkers turn).target j →
        s.stamp turn i < s.stamp turn j) := by
  obtain ⟨free, io, k⟩ := h.ordered turn
  rw [k.lists.inFlight_eq]
  exact List.Pairwise.and k.sorted k.stamped

/-- Two requests for the same time, and a third one that is due before them. -/
theorem inFlight_ordered_requests : ∃ s, StampedReachable 1 s ∧ inFlight (s.dev.ioWorkers 0) = [2, 0, 1] ∧
    (inFlight (s.dev.ioWorkers 0)).Pairwise fun i j =>
      (s.dev.ioWorkers 0).target i ≤ max ((s.dev.ioWorkers 0).target j) (s.dev.ioWorkers 0).latestNsecs ∧
      ((s.dev.ioWorkers 0).target i = (s.dev.ioWorkers 0).target j → s.stamp 0 i < s.stamp 0 j) := by
  have h₁ : StampedReachable 1 _ := .enqueue .init
    (show enqueueIoReq (nvmevIoWorkerInit 1) 1 1 0 7 0 0 ⟨0, 100⟩ = .ok _ from rfl)
  have h₂ : StampedReachable 1 _ := .enqueue h₁
    (show enqueueIoReq _ 1 1 1 8 0 0 ⟨0, 100⟩ = .ok _ from rfl)
  have h₃ : StampedReachable 1 _ := .enqueue h₂
    (show enqueueIoReq _ 1 1 2 9 0 0 ⟨0, 40⟩ = .ok _ from rfl)
  exact ⟨_, h₃, by decide, inFlight_ordered h₃ 0⟩

end NVMeVirt
