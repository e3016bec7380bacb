import NVMeVirt.QueueLife

/-!
# The queue drains

From every state that enqueues, reclaims and turns of the worker can lead to, the worker left to
itself walks to the end of the chain its cursor is in, which may be the free list, and then once
over the list in flight. When the clock has passed the targets this completes everything, and one
reclaim empties the list. So no accepted request stays behind.
-/

namespace NVMeVirt
set_option autoImplicit false
open Outcome Chains

variable {s s' : Trace} {fresh used io : List Nat}

/-- Completed entries have been copied, and their target time has been seen. -/
structure CompletedDue (s : Trace) : Prop where
  completed : ∀ i, (s.worker.workQueue i).isCompleted = true →
    (s.worker.workQueue i).reclaimable s.worker.latestNsecs = true
  latest : s.worker.latestNsecs ≤ s.clock

theorem IoWork.reclaimable_congr {w w' : IoWork} (h : w'.data = w.data) (t : Nat) :
    w'.reclaimable t = w.reclaimable t :=
  calc w'.reclaimable t = w'.data.reclaimable t := rfl
    _ = w.data.reclaimable t := by rw [h]
    _ = w.reclaimable t := rfl

theorem IoWork.reclaimable_mono {w : IoWork} {t t' : Nat} (ht : t ≤ t') (h : w.reclaimable t = true) :
    w.reclaimable t' = true := by
  simp only [IoWork.reclaimable, Bool.and_eq_true, decide_eq_true_eq] at h ⊢
  exact ⟨h.1, Nat.le_trans h.2 ht⟩

theorem CompletedDue.congr (h : CompletedDue s) {worker' : IoWorker}
    (hdata : ∀ i, (worker'.workQueue i).data = (s.worker.workQueue i).data)
    (hlatest : worker'.latestNsecs = s.worker.latestNsecs) : CompletedDue { s with worker := worker' } := by
  refine ⟨?_, hlatest.trans_le h.latest⟩
  intro i hi
  change (worker'.workQueue i).reclaimable worker'.latestNsecs = true
  rw [IoWork.reclaimable_congr (hdata i), hlatest]
  exact h.completed i ((IoWork.isCompleted_congr (hdata i)).symm.trans hi)

theorem CompletedDue.turn (h : CompletedDue s) {now : Nat} (hnow : s.clock ≤ now) :
    CompletedDue (s.turn now) := by
  have t := workerTurn_turned s.worker s.curr now
  have hle : s.worker.latestNsecs ≤ now := Nat.le_trans h.latest hnow
  have hlatest : (workerTurn s.worker s.curr now).1.latestNsecs = now := by
    unfold workerTurn
    dsimp only
    split
    · rfl
    · rfl
  refine ⟨?_, Nat.le_of_eq hlatest⟩
  intro i hi
  change ((workerTurn s.worker s.curr now).1.workQueue i).reclaimable
    (workerTurn s.worker s.curr now).1.latestNsecs = true
  change ((workerTurn s.worker s.curr now).1.workQueue i).isCompleted = true at hi
  rw [hlatest]
  by_cases hic : i = s.curr
  · subst hic
    cases hc : (s.worker.workQueue s.curr).isCompleted with
    | true =>
      rw [workerTurn_skip hc]
      exact IoWork.reclaimable_mono hle (h.completed _ hc)
    | false =>
      rcases Nat.lt_or_ge now (s.worker.workQueue s.curr).nsecsTarget with ht | ht
      · rw [workerTurn_wait hc ht] at hi
        simp [IoWorker.set, hc] at hi
      · rw [workerTurn_finish hc ht]
        simpa [IoWorker.set, IoWork.reclaimable] using ht
  · rw [t.others i hic] at hi ⊢
    exact IoWork.reclaimable_mono hle (h.completed i hi)

theorem TraceReachable.completedDue (h : TraceReachable s) : CompletedDue s := by
  induction h with
  | init =>
    refine ⟨?_, Nat.le_refl 0⟩
    intro i hi
    cases hi
  | @call s dev dev' turn hs c hturn hworker hfree h ih =>
    obtain ⟨fresh, used, io, k⟩ := hs.ok
    replace h := c.run_placed hturn hworker hfree h
    generalize dev'.ioWorkers turn = worker' at h ⊢
    rcases placeEntry_spec k.lists c.unlinks c.nsecsTarget with ⟨-, hn⟩ | ⟨-, e, worker₁, free', io', hp, placed⟩
    · rw [h] at hn
      cases hn
    · rw [h] at hp
      obtain rfl := Option.some.inj (Except.ok.inj hp)
      refine ⟨?_, placed.latestNsecs.trans_le ih.latest⟩
      intro i hi
      change (worker'.workQueue i).isCompleted = true at hi
      change (worker'.workQueue i).reclaimable worker'.latestNsecs = true
      by_cases hie : i = e
      · subst hie
        rw [IoWork.isCompleted_congr placed.entry, c.notCompleted] at hi
        cases hi
      · rw [IoWork.reclaimable_congr (placed.others i hie), placed.latestNsecs]
        exact ih.completed i ((IoWork.isCompleted_congr (placed.others i hie)).symm.trans hi)
  | reclaim hs h ih =>
    obtain ⟨fresh, used, io, k⟩ := hs.ok
    obtain ⟨worker₁, done, left, h₁, -, r⟩ := reclaimWorker_spec k.lists
    obtain rfl := Except.ok.inj (h.symm.trans h₁)
    exact ⟨(ih.congr r.data r.latestNsecs).completed, (ih.congr r.data r.latestNsecs).latest⟩
  | start _ _ ih => exact ⟨ih.completed, ih.latest⟩
  | turn _ _ now hnow ih => exact ih.turn hnow

def AllCarried (s : Trace) : Prop :=
  ∀ n < s.enqueued.length, n ∈ s.reclaimed ∨ ∃ e ∈ inFlight s.worker, s.owner e = some n

theorem TraceReachable.allCarried (h : TraceReachable s) : AllCarried s := by
  induction h with
  | init =>
    intro n hn
    exact absurd hn (Nat.not_lt_zero n)
  | @call s dev dev' turn hs c hturn hworker hfree h ih =>
    obtain ⟨fresh, used, io, k⟩ := hs.ok
    replace h := c.run_placed hturn hworker hfree h
    generalize dev'.ioWorkers turn = worker' at h ⊢
    rcases placeEntry_spec k.lists c.unlinks c.nsecsTarget with ⟨-, hn⟩ | ⟨-, e, worker₁, free', io', hp, placed⟩
    · rw [h] at hn
      cases hn
    · rw [h] at hp
      obtain rfl := Option.some.inj (Except.ok.inj hp)
      have hseq : s.worker.freeSeq = e := by
        have hpath := k.lists.freePath
        rw [placed.free] at hpath
        exact hpath.1
      intro n hn
      change n ∈ s.reclaimed ∨ ∃ i ∈ inFlight worker', Function.update s.owner s.worker.freeSeq _ i = some n
      rw [placed.lists.inFlight_eq, hseq]
      rcases Nat.lt_or_ge n s.enqueued.length with hold | hnew
      · rcases ih n hold with hr | ⟨i, hi, ho⟩
        · exact Or.inl hr
        · rw [k.lists.inFlight_eq] at hi
          have hie : i ≠ e := by
            rintro rfl
            exact k.lists.disjoint (by rw [placed.free]; exact List.mem_cons_self) hi
          refine Or.inr ⟨i, placed.io.mem_iff.mpr (List.mem_cons_of_mem e hi), ?_⟩
          rw [Function.update_of_ne hie]
          exact ho
      · have hlen : (s.placed c worker').enqueued.length = s.enqueued.length + 1 := List.length_append
        obtain rfl : n = s.enqueued.length := by omega
        exact Or.inr ⟨e, placed.io.mem_iff.mpr List.mem_cons_self, Function.update_self _ _ _⟩
  | @reclaim s worker' hs h ih =>
    intro n hn
    rcases ih n hn with hr | ⟨e, he, ho⟩
    · exact Or.inl (List.mem_append_left _ hr)
    · by_cases hstill : e ∈ inFlight worker'
      · exact Or.inr ⟨e, hstill, ho⟩
      · refine Or.inl (List.mem_append_right _ (List.mem_filterMap.mpr ⟨e, ?_, ho⟩))
        exact List.mem_filter.mpr ⟨he, decide_eq_true hstill⟩
  | start _ _ ih => exact ih
  | @turn s hs hcur now _ ih =>
    obtain ⟨fresh, used, io, k⟩ := hs.ok
    have t := workerTurn_turned s.worker s.curr now
    have hflight : inFlight (s.turn now).worker = inFlight s.worker :=
      (t.lists _ _ k.lists).inFlight_eq.trans k.lists.inFlight_eq.symm
    intro n hn
    rw [hflight]
    exact ih n hn

/-- One round of either loop of the worker: it takes `io_seq`, or makes a turn at its cursor. -/
def Trace.workerStep (s : Trace) (now : Nat) : Trace :=
  if s.curr = noEntry then { s with curr := s.worker.ioSeq } else s.turn now

/-- What the worker leaves alone, and that it takes back no completion. -/
structure Stepped (s s' : Trace) : Prop where
  next : s'.worker.next = s.worker.next
  ioSeq : s'.worker.ioSeq = s.worker.ioSeq
  load : ∀ i, (s'.worker.workQueue i).load = (s.worker.workQueue i).load
  completed : ∀ i, (s.worker.workQueue i).isCompleted = true → (s'.worker.workQueue i).isCompleted = true
  enqueued : s'.enqueued = s.enqueued
  lists : ∀ free io, Lists s.worker free io → Lists s'.worker free io

theorem Stepped.refl (s : Trace) : Stepped s s := ⟨rfl, rfl, fun _ => rfl, fun _ h => h, rfl, fun _ _ k => k⟩

theorem Stepped.trans {s'' : Trace} (h : Stepped s s') (h' : Stepped s' s'') : Stepped s s'' :=
  ⟨h'.next.trans h.next, h'.ioSeq.trans h.ioSeq, fun i => (h'.load i).trans (h.load i),
    fun i hi => h'.completed i (h.completed i hi), h'.enqueued.trans h.enqueued,
    fun free io k => h'.lists free io (h.lists free io k)⟩

theorem workerTurn_links (worker : IoWorker) (curr now : Nat) :
    (workerTurn worker curr now).1.next = worker.next ∧
      (workerTurn worker curr now).1.ioSeq = worker.ioSeq := by
  cases hc : (worker.workQueue curr).isCompleted with
  | true =>
    rw [workerTurn_skip hc]
    exact ⟨rfl, rfl⟩
  | false =>
    rcases Nat.lt_or_ge now (worker.workQueue curr).nsecsTarget with ht | ht
    · rw [workerTurn_wait hc ht, IoWorker.set_next]
      exact ⟨Function.update_eq_self curr worker.next, rfl⟩
    · rw [workerTurn_finish hc ht, IoWorker.set_next]
      exact ⟨Function.update_eq_self curr worker.next, rfl⟩

theorem turn_stepped (s : Trace) (now : Nat) : Stepped s (s.turn now) := by
  have t := workerTurn_turned s.worker s.curr now
  obtain ⟨hnext, hseq⟩ := workerTurn_links s.worker s.curr now
  refine ⟨hnext, hseq, t.load, ?_, rfl, t.lists⟩
  intro i hi
  change ((workerTurn s.worker s.curr now).1.workQueue i).isCompleted = true
  by_contra hopen
  rw [workerTurn_open (Bool.eq_false_iff.mpr hopen)] at hi
  cases hi

theorem turn_completes {now : Nat} (ht : (s.worker.workQueue s.curr).nsecsTarget ≤ now) :
    ((s.turn now).worker.workQueue s.curr).isCompleted = true := by
  change ((workerTurn s.worker s.curr now).1.workQueue s.curr).isCompleted = true
  cases hc : (s.worker.workQueue s.curr).isCompleted with
  | true =>
    rw [workerTurn_skip hc]
    exact hc
  | false =>
    rw [workerTurn_finish hc ht]
    simp [IoWorker.set]

theorem workerStep_stepped (s : Trace) (now : Nat) : Stepped s (s.workerStep now) := by
  unfold Trace.workerStep
  split
  · exact ⟨rfl, rfl, fun _ => rfl, fun _ h => h, rfl, fun _ _ k => k⟩
  · exact turn_stepped s now

theorem workerSteps_stepped (s : Trace) (times : List Nat) : Stepped s (times.foldl Trace.workerStep s) := by
  induction times generalizing s with
  | nil => exact Stepped.refl s
  | cons now times ih => exact (workerStep_stepped s now).trans (ih _)

theorem TraceReachable.workerSteps (h : TraceReachable s) {times : List Nat}
    (htimes : (s.clock :: times).Pairwise (· ≤ ·)) :
    TraceReachable (times.foldl Trace.workerStep s) := by
  induction times generalizing s with
  | nil => exact h
  | cons now times ih =>
    obtain ⟨hclock, hrest⟩ := List.pairwise_cons.mp htimes
    obtain ⟨hnow, htail⟩ := List.pairwise_cons.mp hrest
    rw [List.foldl_cons]
    unfold Trace.workerStep
    split
    · rename_i hcurr
      refine ih (TraceReachable.start h hcurr) ?_
      exact List.pairwise_cons.mpr ⟨fun t ht => hclock t (List.mem_cons_of_mem now ht), htail⟩
    · rename_i hcurr
      exact ih (TraceReachable.turn h hcurr now (hclock now List.mem_cons_self))
        (List.pairwise_cons.mpr ⟨hnow, htail⟩)

theorem IoWork.nsecsTarget_congr {w w' : IoWork} (h : w'.load = w.load) : w'.nsecsTarget = w.nsecsTarget :=
  calc w'.nsecsTarget = w'.load.nsecsTarget := rfl
    _ = w.load.nsecsTarget := by rw [h]
    _ = w.nsecsTarget := rfl

/-- Along the chain that is ahead of the cursor everything due is completed. -/
theorem walk_completes {l : List Nat} (hpath : Path s.worker.next s.curr l noEntry) (hl : noEntry ∉ l)
    {times : List Nat} (hlen : times.length = l.length)
    (hlate : ∀ t ∈ times, ∀ i ∈ l, (s.worker.workQueue i).nsecsTarget ≤ t) :
    (times.foldl Trace.workerStep s).curr = noEntry ∧
      ∀ i ∈ l, ((times.foldl Trace.workerStep s).worker.workQueue i).isCompleted = true := by
  induction l generalizing s times with
  | nil =>
    obtain rfl := List.length_eq_zero_iff.mp hlen
    exact ⟨hpath, fun i hi => absurd hi List.not_mem_nil⟩
  | cons x l ih =>
    obtain ⟨hx, hrest⟩ := hpath
    cases times with
    | nil => cases hlen
    | cons now times =>
      have hcurr : s.curr ≠ noEntry := fun he => hl (by rw [← he, hx]; exact List.mem_cons_self)
      have hstep : s.workerStep now = s.turn now := if_neg hcurr
      have hs := turn_stepped s now
      have t := workerTurn_turned s.worker s.curr now
      have hpath' : Path (s.turn now).worker.next (s.turn now).curr l noEntry := by
        rw [hs.next, show (s.turn now).curr = s.worker.next x by rw [← hx]; exact t.next]
        exact hrest
      have hlate' : ∀ u ∈ times, ∀ i ∈ l, ((s.turn now).worker.workQueue i).nsecsTarget ≤ u := by
        intro u hu i hi
        rw [IoWork.nsecsTarget_congr (hs.load i)]
        exact hlate u (List.mem_cons_of_mem now hu) i (List.mem_cons_of_mem x hi)
      obtain ⟨hend, hdone⟩ := ih hpath' (List.not_mem_of_not_mem_cons hl) (Nat.succ.inj hlen) hlate'
      rw [List.foldl_cons, hstep]
      refine ⟨hend, ?_⟩
      intro i hi
      rcases List.mem_cons.mp hi with rfl | hi
      · refine (workerSteps_stepped (s.turn now) times).completed i ?_
        rw [← hx]
        exact turn_completes (hx ▸ hlate now List.mem_cons_self i List.mem_cons_self)
      · exact hdone i hi

/-- What is ahead of the cursor, in the free list or in the list in flight. -/
theorem TraceOk.ahead (k : TraceOk s fresh used io) : ∃ l, Path s.worker.next s.curr l noEntry ∧
    (∀ i ∈ l, i ∈ used ++ io) ∧ noEntry ∉ l ∧ l.length ≤ nrMaxParallelIo := by
  have hlen := k.lists.length
  have hsuffix : ∀ {a m : List Nat} {b : Nat}, Path s.worker.next b (a ++ s.curr :: m) noEntry →
      Path s.worker.next s.curr (s.curr :: m) noEntry := by
    intro a m b hp
    obtain ⟨c, -, hc⟩ := path_append.mp hp
    exact ⟨rfl, hc.2⟩
  rcases k.cursor with hc | hc
  · exact ⟨[], hc, fun i hi => absurd hi List.not_mem_nil, List.not_mem_nil, Nat.zero_le _⟩
  · rcases List.mem_append.mp hc with hu | hi
    · obtain ⟨a, m, hused⟩ := List.append_of_mem hu
      have hfree := k.lists.freePath
      have hno := k.lists.noEntry_free
      rw [hused, ← List.append_assoc] at hfree hno
      refine ⟨s.curr :: m, hsuffix hfree, ?_, fun h => hno (List.mem_append_right _ h), ?_⟩
      · intro i hi
        rw [hused, List.append_assoc]
        exact List.mem_append_right a (List.mem_append_left io hi)
      · have hl := congrArg List.length hused
        rw [List.length_append] at hlen hl
        omega
    · obtain ⟨a, m, hio⟩ := List.append_of_mem hi
      have hflight := k.lists.ioPath
      have hno := k.lists.noEntry_io
      rw [hio] at hflight hno
      refine ⟨s.curr :: m, hsuffix hflight, ?_, fun h => hno (List.mem_append_right a h), ?_⟩
      · intro i hi
        rw [hio]
        exact List.mem_append_right used (List.mem_append_right a hi)
      · have hl := congrArg List.length hio
        rw [List.length_append] at hl
        omega

/-- When every entry in flight may go, reclaim takes them all. -/
theorem lastCompleted_all {worker : IoWorker} {l : List Nat} {curr : Nat}
    (h : Path worker.next curr l noEntry) (hl : noEntry ∉ l)
    (hall : ∀ i ∈ l, (worker.workQueue i).reclaimable worker.latestNsecs = true) (last : Nat) {fuel : Nat}
    (hfuel : l.length ≤ fuel) : lastCompleted worker fuel last curr = .ok (l.getLastD last) := by
  induction l generalizing curr last fuel with
  | nil =>
    have hc : curr = noEntry := h
    cases fuel with
    | zero => rw [lastCompleted, if_pos hc, List.getLastD_nil]
    | succ fuel => rw [lastCompleted, if_pos hc, List.getLastD_nil]
  | cons x l ih =>
    obtain ⟨rfl, h⟩ := h
    cases fuel with
    | zero => simp at hfuel
    | succ fuel =>
      have hc : curr ≠ noEntry := fun he => hl (he ▸ List.mem_cons_self)
      rw [lastCompleted, if_neg hc, if_pos (hall curr List.mem_cons_self), List.getLastD_cons]
      exact ih h (List.not_mem_of_not_mem_cons hl) (fun i hi => hall i (List.mem_cons_of_mem curr hi)) curr
        (Nat.le_of_succ_le_succ hfuel)

theorem reclaimWorker_all {worker : IoWorker} {free : List Nat} (k : Lists worker free io)
    (hall : ∀ i ∈ io, (worker.workQueue i).reclaimable worker.latestNsecs = true) :
    ∃ worker', reclaimWorker worker = .ok worker' ∧ Lists worker' (free ++ io) [] := by
  have hlen : io.length ≤ nrMaxParallelIo := by
    have h := k.length
    omega
  unfold reclaimWorker
  rw [lastCompleted_all k.ioPath k.noEntry_io hall noEntry hlen, ok_bind]
  rcases List.eq_nil_or_concat io with rfl | ⟨done, last, rfl⟩
  · exact ⟨worker, rfl, by rw [List.append_nil]; exact k⟩
  · rw [List.concat_eq_append] at k ⊢
    have hne : last ≠ noEntry := Lists.lt_noEntry (k.io_lt (by simp))
    rw [List.getLastD_concat, if_neg hne]
    rw [← List.append_nil (done ++ [last])] at k
    exact ⟨_, rfl, splice_lists k⟩

/-- Once over what is ahead of the cursor and once over the list in flight. -/
theorem TraceOk.all_completed (k : TraceOk s fresh used io) {times : List Nat}
    (hlate : ∀ t ∈ times, ∀ w ∈ s.enqueued, w.nsecsTarget ≤ t)
    (hlen : 2 * nrMaxParallelIo + 1 ≤ times.length) :
    ∀ i ∈ io, ((times.foldl Trace.workerStep s).worker.workQueue i).isCompleted = true := by
  obtain ⟨l, hpath, hl, hno, hshort⟩ := k.ahead
  have htarget : ∀ i ∈ used ++ io, ∀ t ∈ times, (s.worker.workQueue i).nsecsTarget ≤ t := by
    intro i hi t ht
    obtain ⟨n, c, -, hq, hfills⟩ := k.owned i hi
    rw [hfills.target]
    exact hlate t ht c (List.mem_of_getElem? hq)
  have hio := k.lists.length
  -- the readings of the two walks, the one at which the worker starts again, and the rest
  obtain ⟨t₁, t, t₂, rest, htimes, h₁, h₂⟩ : ∃ t₁ t t₂ rest, times = t₁ ++ t :: (t₂ ++ rest) ∧
      t₁.length = l.length ∧ t₂.length = io.length := by
    have hdrop : (times.drop l.length).length = times.length - l.length := List.length_drop
    obtain ⟨t, r, hr⟩ := List.exists_cons_of_length_pos (l := times.drop l.length) (by omega)
    rw [hr, List.length_cons] at hdrop
    refine ⟨times.take l.length, t, r.take io.length, r.drop io.length, ?_, ?_, ?_⟩
    · rw [List.take_append_drop, ← hr, List.take_append_drop]
    · rw [List.length_take]
      omega
    · rw [List.length_take]
      omega
  have hlate₁ : ∀ u ∈ t₁, ∀ i ∈ l, (s.worker.workQueue i).nsecsTarget ≤ u :=
    fun u hu i hi => htarget i (hl i hi) u (by rw [htimes]; exact List.mem_append_left _ hu)
  obtain ⟨hend, -⟩ := walk_completes hpath hno h₁ hlate₁
  have hs₁ := workerSteps_stepped s t₁
  have hstart : (t₁.foldl Trace.workerStep s).workerStep t =
      { t₁.foldl Trace.workerStep s with curr := (t₁.foldl Trace.workerStep s).worker.ioSeq } := if_pos hend
  have hs₂ := hs₁.trans (workerStep_stepped (t₁.foldl Trace.workerStep s) t)
  have hpath₂ : Path ((t₁.foldl Trace.workerStep s).workerStep t).worker.next
      ((t₁.foldl Trace.workerStep s).workerStep t).curr io noEntry := by
    rw [hs₂.next, show ((t₁.foldl Trace.workerStep s).workerStep t).curr = s.worker.ioSeq by
      rw [hstart]; exact hs₁.ioSeq]
    exact k.lists.ioPath
  have hlate₂ : ∀ u ∈ t₂, ∀ i ∈ io,
      (((t₁.foldl Trace.workerStep s).workerStep t).worker.workQueue i).nsecsTarget ≤ u := by
    intro u hu i hi
    rw [IoWork.nsecsTarget_congr (hs₂.load i)]
    exact htarget i (List.mem_append_right used hi) u (by rw [htimes]; simp [hu])
  obtain ⟨-, hdone⟩ := walk_completes hpath₂ k.lists.noEntry_io h₂ hlate₂
  intro i hi
  rw [htimes, List.foldl_append, List.foldl_cons, List.foldl_append]
  exact (workerSteps_stepped _ rest).completed i (hdone i hi)

/-- From every state that the threads can lead to: when the clock has passed all targets, any run of
the worker of at least two passes completes all that is in flight, a reclaim leaves nothing behind,
and every request ever enqueued has been reclaimed and answered once. -/
theorem worker_drains (h : TraceReachable s) {times : List Nat}
    (htimes : (s.clock :: times).Pairwise (· ≤ ·))
    (hlate : ∀ t ∈ times, ∀ w ∈ s.enqueued, w.nsecsTarget ≤ t)
    (hlen : 2 * nrMaxParallelIo + 1 ≤ times.length) :
    ∃ worker', reclaimWorker (times.foldl Trace.workerStep s).worker = .ok worker' ∧
      worker'.ioSeq = noEntry ∧ ∀ n < s.enqueued.length,
        n ∈ ((times.foldl Trace.workerStep s).reclaim worker').reclaimed ∧
        answers ((times.foldl Trace.workerStep s).reclaim worker') n = 1 := by
  obtain ⟨fresh, used, io, k⟩ := h.ok
  have hs := workerSteps_stepped s times
  have hdone := k.all_completed hlate hlen
  have hsettled := (h.workerSteps htimes).completedDue
  obtain ⟨worker', hreclaim, hlists⟩ := reclaimWorker_all (hs.lists _ _ k.lists)
    (fun i hi => hsettled.completed i (hdone i hi))
  have hafter := (h.workerSteps htimes).reclaim hreclaim
  obtain ⟨_, _, _, k'⟩ := hafter.ok
  refine ⟨worker', hreclaim, hlists.io_nil_iff.mp rfl, ?_⟩
  intro n hn
  have hmem : n ∈ ((times.foldl Trace.workerStep s).reclaim worker').reclaimed := by
    have hn' : n < ((times.foldl Trace.workerStep s).reclaim worker').enqueued.length := by
      rw [show ((times.foldl Trace.workerStep s).reclaim worker').enqueued = s.enqueued from hs.enqueued]
      exact hn
    refine (hafter.allCarried n hn').resolve_right ?_
    rintro ⟨e, he, -⟩
    rw [show inFlight ((times.foldl Trace.workerStep s).reclaim worker').worker = [] from
      hlists.inFlight_eq] at he
    exact absurd he List.not_mem_nil
  obtain ⟨f, hf, hfo⟩ := k'.reclaimedDone n hmem
  exact ⟨hmem, List.count_eq_one_of_mem k'.once (List.mem_map.mpr ⟨f, hf, hfo⟩)⟩

/-- A request with target time 100 is placed and the worker looks at it at 50; from then on the
clock stands at 120. -/
theorem worker_drains_request : ∃ (s : Trace) (times : List Nat) (worker' : IoWorker), TraceReachable s ∧
    reclaimWorker (times.foldl Trace.workerStep s).worker = .ok worker' ∧
    answers ((times.foldl Trace.workerStep s).reclaim worker') 0 = 1 := by
  have h₁ : TraceReachable _ := .place .init (.enqueueIoReq 1 1 0 7 0 0 ⟨0, 100⟩) rfl
  have h₂ : TraceReachable _ := .start h₁ rfl
  have h₃ : TraceReachable _ := .turn h₂ (by decide) 50 (by decide)
  have hclock : (50 :: List.replicate (2 * nrMaxParallelIo + 1) 120).Pairwise (· ≤ ·) := by
    refine List.pairwise_cons.mpr ⟨?_, List.pairwise_replicate_of_refl⟩
    intro t ht
    rw [List.eq_of_mem_replicate ht]
    decide
  obtain ⟨worker', hreclaim, -, hall⟩ := worker_drains h₃ hclock
    (by
      intro t ht w hw
      rw [List.eq_of_mem_replicate ht]
      obtain rfl := List.mem_singleton.mp hw
      decide)
    (Nat.le_of_eq List.length_replicate.symm)
  exact ⟨_, _, worker', h₃, hreclaim, (hall 0 (by decide)).2⟩

end NVMeVirt
