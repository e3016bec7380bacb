import NVMeVirt.IoWorker
import NVMeVirt.Lib.Chains

/-!
# The two index lists of a worker

`Lists worker free io` says that the free list and the list of requests in flight are
`free` and `io`: one lemma for each operation says what it does to the two.
-/

namespace NVMeVirt
set_option autoImplicit false
open Outcome Chains

def IoWork.data (w : IoWork) : IoWork := { w with next := 0, prev := 0 }

structure Lists (worker : IoWorker) (free io : List Nat) : Prop where
  freePath : Path worker.next worker.freeSeq free noEntry
  freeEnd : free.getLast? = some worker.freeSeqEnd
  ioPath : Path worker.next worker.ioSeq io noEntry
  ioBack : io ≠ [] → Path worker.prev worker.ioSeqEnd io.reverse noEntry
  all : (free ++ io).Perm (List.range nrMaxParallelIo)

namespace IoWorker
variable {worker : IoWorker} {i j v : Nat}

@[simp] theorem setNext_next : (worker.setNext i v).next = Function.update worker.next i v := by
  funext j
  by_cases h : j = i
  · subst h
    simp [setNext, set, next]
  · simp [setNext, set, next, h]

@[simp] theorem setNext_prev : (worker.setNext i v).prev = worker.prev := by
  funext j
  by_cases h : j = i
  · subst h
    simp [setNext, set, prev]
  · simp [setNext, set, prev, h]

@[simp] theorem setPrev_prev : (worker.setPrev i v).prev = Function.update worker.prev i v := by
  funext j
  by_cases h : j = i
  · subst h
    simp [setPrev, set, prev]
  · simp [setPrev, set, prev, h]

@[simp] theorem setPrev_next : (worker.setPrev i v).next = worker.next := by
  funext j
  by_cases h : j = i
  · subst h
    simp [setPrev, set, next]
  · simp [setPrev, set, next, h]

theorem setNext_data : ((worker.setNext i v).workQueue j).data = (worker.workQueue j).data := by
  by_cases h : j = i
  · subst h
    simp [setNext, set, IoWork.data]
  · simp [setNext, set, h]

theorem setPrev_data : ((worker.setPrev i v).workQueue j).data = (worker.workQueue j).data := by
  by_cases h : j = i
  · subst h
    simp [setPrev, set, IoWork.data]
  · simp [setPrev, set, h]

theorem set_next (worker : IoWorker) (i : Nat) (w : IoWork) :
    (worker.set i w).next = Function.update worker.next i w.next := by
  funext j
  by_cases h : j = i
  · subst h
    simp [set, next]
  · simp [set, next, h]

theorem set_prev (worker : IoWorker) (i : Nat) (w : IoWork) :
    (worker.set i w).prev = Function.update worker.prev i w.prev := by
  funext j
  by_cases h : j = i
  · subst h
    simp [set, prev]
  · simp [set, prev, h]

theorem links_congr {worker' : IoWorker} (h : worker'.workQueue = worker.workQueue) :
    worker'.next = worker.next ∧ worker'.prev = worker.prev := by
  constructor
  · funext j
    exact congrArg IoWork.next (congrFun h j)
  · funext j
    exact congrArg IoWork.prev (congrFun h j)

@[simp] theorem setNext_freeSeq : (worker.setNext i v).freeSeq = worker.freeSeq := rfl
@[simp] theorem setNext_freeSeqEnd : (worker.setNext i v).freeSeqEnd = worker.freeSeqEnd := rfl
@[simp] theorem setNext_ioSeq : (worker.setNext i v).ioSeq = worker.ioSeq := rfl
@[simp] theorem setNext_ioSeqEnd : (worker.setNext i v).ioSeqEnd = worker.ioSeqEnd := rfl
@[simp] theorem setNext_latestNsecs : (worker.setNext i v).latestNsecs = worker.latestNsecs := rfl
@[simp] theorem setPrev_freeSeq : (worker.setPrev i v).freeSeq = worker.freeSeq := rfl
@[simp] theorem setPrev_freeSeqEnd : (worker.setPrev i v).freeSeqEnd = worker.freeSeqEnd := rfl
@[simp] theorem setPrev_ioSeq : (worker.setPrev i v).ioSeq = worker.ioSeq := rfl
@[simp] theorem setPrev_ioSeqEnd : (worker.setPrev i v).ioSeqEnd = worker.ioSeqEnd := rfl
@[simp] theorem setPrev_latestNsecs : (worker.setPrev i v).latestNsecs = worker.latestNsecs := rfl

end IoWorker

variable {worker worker' : IoWorker} {free io : List Nat}

namespace Lists

theorem nodup (k : Lists worker free io) : (free ++ io).Nodup :=
  (List.Perm.nodup_iff k.all).mpr List.nodup_range

theorem disjoint (k : Lists worker free io) {i : Nat} (hf : i ∈ free) : i ∉ io :=
  fun hi => (List.disjoint_of_nodup_append k.nodup) hf hi

theorem mem (k : Lists worker free io) {i : Nat} : i ∈ free ∨ i ∈ io ↔ i < nrMaxParallelIo := by
  rw [← List.mem_append, k.all.mem_iff, List.mem_range]

theorem free_lt (k : Lists worker free io) {i : Nat} (h : i ∈ free) : i < nrMaxParallelIo :=
  k.mem.mp (Or.inl h)

theorem io_lt (k : Lists worker free io) {i : Nat} (h : i ∈ io) : i < nrMaxParallelIo :=
  k.mem.mp (Or.inr h)

theorem lt_noEntry {i : Nat} (h : i < nrMaxParallelIo) : i ≠ noEntry := by
  rw [nrMaxParallelIo] at h
  rw [noEntry]
  omega

theorem noEntry_free (k : Lists worker free io) : noEntry ∉ free :=
  fun h => lt_noEntry (k.free_lt h) rfl

theorem noEntry_io (k : Lists worker free io) : noEntry ∉ io :=
  fun h => lt_noEntry (k.io_lt h) rfl

theorem length (k : Lists worker free io) : free.length + io.length = nrMaxParallelIo := by
  have h := k.all.length_eq
  rwa [List.length_append, List.length_range] at h

theorem free_ne_nil (k : Lists worker free io) : free ≠ [] := by
  intro h
  have hend := k.freeEnd
  rw [h] at hend
  cases hend

theorem unique (k : Lists worker free io) {free' io' : List Nat} (k' : Lists worker free' io') :
    free = free' ∧ io = io' :=
  ⟨k.freePath.unique k'.freePath k.noEntry_free k'.noEntry_free,
    k.ioPath.unique k'.ioPath k.noEntry_io k'.noEntry_io⟩

theorem io_nil_iff (k : Lists worker free io) : io = [] ↔ worker.ioSeq = noEntry := by
  constructor
  · intro h
    have hp := k.ioPath
    rw [h] at hp
    exact hp
  · intro h
    cases io with
    | nil => rfl
    | cons x l =>
      have hx : x = noEntry := by rw [← k.ioPath.1, h]
      exact absurd hx (lt_noEntry (k.io_lt List.mem_cons_self))

/-- Only the heads, the tails and the links matter. -/
theorem congr (k : Lists worker free io) (hn : worker'.next = worker.next)
    (hp : worker'.prev = worker.prev) (hf : worker'.freeSeq = worker.freeSeq)
    (he : worker'.freeSeqEnd = worker.freeSeqEnd) (hi : worker'.ioSeq = worker.ioSeq)
    (hl : worker'.ioSeqEnd = worker.ioSeqEnd) : Lists worker' free io := by
  refine ⟨?_, ?_, ?_, ?_, k.all⟩
  · rw [hn, hf]
    exact k.freePath
  · rw [he]
    exact k.freeEnd
  · rw [hn, hi]
    exact k.ioPath
  · rw [hp, hl]
    exact k.ioBack

end Lists

/-- `entry` has been linked between `before` and `after`; nothing but links has changed. -/
structure Inserted (worker : IoWorker) (entry : Nat) (before after : List Nat)
    (worker' : IoWorker) : Prop where
  path : Path worker'.next worker'.ioSeq (before ++ entry :: after) noEntry
  back : Path worker'.prev worker'.ioSeqEnd (before ++ entry :: after).reverse noEntry
  next : ∀ i, i ≠ entry → i ∉ before ++ after → worker'.next i = worker.next i
  data : ∀ i, (worker'.workQueue i).data = (worker.workQueue i).data
  freeSeq : worker'.freeSeq = worker.freeSeq
  freeSeqEnd : worker'.freeSeqEnd = worker.freeSeqEnd
  latestNsecs : worker'.latestNsecs = worker.latestNsecs

/-- The search for the place of target `t` stops at this entry. -/
def IoWorker.Stops (worker : IoWorker) (t i : Nat) : Prop :=
  (worker.workQueue i).nsecsTarget ≤ max t worker.latestNsecs

/-- The search goes past the entries it does not stop at, within as many turns as there are cells. -/
theorem insertAfter_spec {l : List Nat} {curr : Nat} (h : Path worker.prev curr l noEntry)
    (hl : noEntry ∉ l) (t : Nat) {fuel : Nat} (hfuel : l.length ≤ fuel) :
    ∃ r p q, insertAfter worker t fuel curr = .ok r ∧ l = p ++ q ∧ (∀ i ∈ p, ¬ worker.Stops t i) ∧
      (q = [] ∧ r = noEntry ∨ ∃ q', q = r :: q' ∧ worker.Stops t r) := by
  induction l generalizing curr fuel with
  | nil =>
    have hc : curr = noEntry := h
    refine ⟨noEntry, [], [], ?_, rfl, fun _ hi => absurd hi List.not_mem_nil, Or.inl ⟨rfl, rfl⟩⟩
    cases fuel with
    | zero => rw [insertAfter, if_pos hc]
    | succ fuel => rw [insertAfter, if_pos hc]
  | cons x l ih =>
    obtain ⟨rfl, h⟩ := h
    cases fuel with
    | zero => simp at hfuel
    | succ fuel =>
      have hc : curr ≠ noEntry := fun he => hl (he ▸ List.mem_cons_self)
      rw [insertAfter, if_neg hc]
      by_cases hdue : (worker.workQueue curr).nsecsTarget ≤ worker.latestNsecs
      · rw [if_pos hdue]
        exact ⟨curr, [], curr :: l, rfl, rfl, fun _ hi => absurd hi List.not_mem_nil,
          Or.inr ⟨l, rfl, le_max_of_le_right hdue⟩⟩
      rw [if_neg hdue]
      by_cases hle : (worker.workQueue curr).nsecsTarget ≤ t
      · rw [if_pos hle]
        exact ⟨curr, [], curr :: l, rfl, rfl, fun _ hi => absurd hi List.not_mem_nil,
          Or.inr ⟨l, rfl, le_max_of_le_left hle⟩⟩
      rw [if_neg hle]
      obtain ⟨r, p, q, hr, hpq, hp, hq⟩ :=
        ih h (List.not_mem_of_not_mem_cons hl) (Nat.le_of_succ_le_succ hfuel)
      refine ⟨r, curr :: p, q, hr, by rw [hpq]; rfl, ?_, hq⟩
      intro i hi hstop
      rcases List.mem_cons.mp hi with rfl | hi
      · exact (le_max_iff.mp hstop).elim hle hdue
      · exact hp i hi hstop

section Insert
variable {entry : Nat}

theorem inserted_empty (hnext : worker.next entry = noEntry) (hprev : worker.prev entry = noEntry) :
    Inserted worker entry [] [] { worker with ioSeq := entry, ioSeqEnd := entry } :=
  ⟨⟨rfl, hnext⟩, ⟨rfl, hprev⟩, fun _ _ _ => rfl, fun _ => rfl, rfl, rfl, rfl⟩

variable (hentry : entry ∉ io) (hnodup : io.Nodup)
  (path : Path worker.next worker.ioSeq io noEntry)
  (back : Path worker.prev worker.ioSeqEnd io.reverse noEntry)
include hentry hnodup path back

theorem inserted_head {x : Nat} {l : List Nat} (hio : io = x :: l)
    (hprev : worker.prev entry = noEntry) :
    Inserted worker entry [] io
      { (worker.setPrev worker.ioSeq entry).setNext entry worker.ioSeq with ioSeq := entry } := by
  have hseq : worker.ioSeq = x := by
    rw [hio] at path
    exact path.1
  have hx : x ∉ l.reverse := by
    rw [hio] at hnodup
    simpa using (List.nodup_cons.mp hnodup).1
  have hne : entry ≠ x := fun he => hentry (by simp [hio, he])
  refine ⟨?_, ?_, ?_, ?_, rfl, rfl, rfl⟩
  · change Path ((worker.setPrev worker.ioSeq entry).setNext entry worker.ioSeq).next entry
      (entry :: io) noEntry
    simp only [IoWorker.setNext_next, IoWorker.setPrev_next, path_cons, Function.update_self,
      true_and]
    exact path.update hentry
  · change Path ((worker.setPrev worker.ioSeq entry).setNext entry worker.ioSeq).prev worker.ioSeqEnd
      (entry :: io).reverse noEntry
    rw [hio, List.reverse_cons] at back
    have hlast : worker.prev x = noEntry := (path_snoc.mp back).2
    have hins := back.insert hx List.not_mem_nil hne (hprev.trans hlast.symm)
    simpa [hio, hseq] using hins
  · intro i hi _
    change ((worker.setPrev worker.ioSeq entry).setNext entry worker.ioSeq).next i = worker.next i
    simp [hi]
  · intro i
    exact IoWorker.setNext_data.trans IoWorker.setPrev_data

theorem inserted_tail {p : List Nat} {r : Nat} (hio : io = p ++ [r])
    (hnext : worker.next entry = noEntry) :
    Inserted worker entry io []
      (IoWorker.setNext { worker.setPrev entry r with ioSeqEnd := entry } r entry) := by
  have hr : r ∉ p := by
    rw [hio] at hnodup
    exact fun h => (List.disjoint_of_nodup_append hnodup) h (by simp)
  have hne : entry ≠ r := fun he => hentry (by simp [hio, he])
  have hlinks : IoWorker.next (IoWorker.setNext { worker.setPrev entry r with ioSeqEnd := entry } r entry) =
      Function.update worker.next r entry := by
    rw [IoWorker.setNext_next]
    exact congrArg (fun g => Function.update g r entry) IoWorker.setPrev_next
  have hback : IoWorker.prev (IoWorker.setNext { worker.setPrev entry r with ioSeqEnd := entry } r entry) =
      Function.update worker.prev entry r := by
    rw [IoWorker.setNext_prev]
    exact IoWorker.setPrev_prev
  refine ⟨?_, ?_, ?_, ?_, rfl, rfl, rfl⟩
  · rw [hlinks]
    rw [hio] at path
    have hend : worker.next r = noEntry := (path_snoc.mp path).2
    have hins := path.insert hr List.not_mem_nil hne (hnext.trans hend.symm)
    simpa [hio] using hins
  · rw [hback, List.reverse_append]
    refine ⟨rfl, ?_⟩
    have hseq : worker.ioSeqEnd = r := by
      rw [hio, List.reverse_append] at back
      exact back.1
    rw [Function.update_self, ← hseq]
    exact back.update (by simpa using hentry)
  · intro i _ hi
    have hir : i ≠ r := fun he => hi (by simp [hio, he])
    rw [hlinks, Function.update_of_ne hir]
  · intro i
    exact IoWorker.setNext_data.trans IoWorker.setPrev_data

theorem inserted_between {p q : List Nat} {r x : Nat} (hio : io = p ++ r :: x :: q) :
    Inserted worker entry (p ++ [r]) (x :: q)
      ((((worker.setPrev entry r).setNext entry x).setPrev x entry).setNext r entry) := by
  have hne : entry ≠ r := fun he => hentry (by simp [hio, he])
  have hnx : entry ≠ x := fun he => hentry (by simp [hio, he])
  rw [hio] at hnodup hentry path back
  obtain ⟨_, hrest, hdisj⟩ := List.nodup_append.mp hnodup
  have hrp : r ∉ p := fun h => hdisj r h r (by simp) rfl
  have hrq : r ∉ x :: q := (List.nodup_cons.mp hrest).1
  have hxq : x ∉ q := (List.nodup_cons.mp (List.nodup_cons.mp hrest).2).1
  have hxp : x ∉ p := fun h => hdisj x h x (by simp) rfl
  have hxr : x ≠ r := fun he => hrq (by simp [he])
  refine ⟨?_, ?_, ?_, ?_, rfl, rfl, rfl⟩
  · simp only [IoWorker.setNext_next, IoWorker.setPrev_next]
    have hrx : worker.next r = x := by
      obtain ⟨_, _, h⟩ := path_append.mp path
      exact h.2.1
    have hpath : Path (Function.update worker.next entry x) worker.ioSeq (p ++ r :: x :: q) noEntry :=
      path.update hentry
    have hins := hpath.insert hrp hrq hne (by
      rw [Function.update_self, Function.update_of_ne (Ne.symm hne), hrx])
    simpa using hins
  · simp only [IoWorker.setNext_prev, IoWorker.setPrev_prev]
    have hrev : (p ++ r :: x :: q).reverse = q.reverse ++ x :: r :: p.reverse := by simp
    rw [hrev] at back
    have hxr' : worker.prev x = r := by
      obtain ⟨_, _, h⟩ := path_append.mp back
      exact h.2.1
    have hmem : entry ∉ q.reverse ++ x :: r :: p.reverse := by
      rw [← hrev]
      exact fun h => hentry (List.mem_reverse.mp h)
    have hback : Path (Function.update worker.prev entry r) worker.ioSeqEnd
        (q.reverse ++ x :: r :: p.reverse) noEntry := back.update hmem
    have hins := hback.insert (by simpa using hxq) (by simp [hxr, hxp]) hnx (by
      rw [Function.update_self, Function.update_of_ne (Ne.symm hnx), hxr'])
    simpa using hins
  · intro i hi hmem
    have hir : i ≠ r := fun he => hmem (by simp [he])
    simp [hi, hir]
  · intro i
    rw [IoWorker.setNext_data, IoWorker.setPrev_data, IoWorker.setNext_data, IoWorker.setPrev_data]

end Insert

/-- The search from the tail for the place of target `t` ends between `before` and `after`. -/
structure Sought (worker : IoWorker) (t : Nat) (before after : List Nat) : Prop where
  stop : ∀ i ∈ before.getLast?, worker.Stops t i
  past : ∀ i ∈ after, ¬ worker.Stops t i

/-- The sorted insertion returns and links the entry where its search ends. -/
theorem insertReqSorted_spec (worker : IoWorker) (entry : Nat)
    (path : Path worker.next worker.ioSeq io noEntry)
    (back : io ≠ [] → Path worker.prev worker.ioSeqEnd io.reverse noEntry) (hnodup : io.Nodup)
    (hio : noEntry ∉ io) (hlen : io.length ≤ nrMaxParallelIo) (hentry : entry ∉ io)
    (hnext : worker.next entry = noEntry) (hprev : worker.prev entry = noEntry) (t : Nat) :
    ∃ worker' before after, insertReqSorted entry worker t = .ok worker' ∧ io = before ++ after ∧
      Sought worker t before after ∧ Inserted worker entry before after worker' := by
  unfold insertReqSorted
  cases io with
  | nil =>
    have hseq : worker.ioSeq = noEntry := path
    rw [if_pos hseq]
    exact ⟨_, [], [], rfl, rfl, ⟨by simp, by simp⟩, inserted_empty hnext hprev⟩
  | cons x l =>
    have hne : worker.ioSeq ≠ noEntry := by
      rw [path.1]
      exact fun he => hio (he ▸ List.mem_cons_self)
    have back := back (List.cons_ne_nil x l)
    rw [if_neg hne]
    have hturns : (x :: l).reverse.length ≤ nrMaxParallelIo := by
      rw [List.length_reverse]
      exact hlen
    obtain ⟨r, p, q, hr, hpq, hpast, hq⟩ :=
      insertAfter_spec back (fun h => hio (List.mem_reverse.mp h)) t hturns
    rw [hr, ok_bind]
    rcases hq with ⟨rfl, rfl⟩ | ⟨q', rfl, hstop⟩
    · rw [if_pos rfl]
      have hpast' : ∀ i ∈ x :: l, ¬ worker.Stops t i := by
        intro i hi
        rw [List.append_nil] at hpq
        exact hpast i (hpq ▸ List.mem_reverse.mpr hi)
      exact ⟨_, [], x :: l, rfl, rfl, ⟨by simp, hpast'⟩,
        inserted_head hentry hnodup path back rfl hprev⟩
    · have hsplit : x :: l = q'.reverse ++ r :: p.reverse := by
        have h := congrArg List.reverse hpq
        simpa using h
      have hrmem : r ∈ x :: l := by simp [hsplit]
      have hrn : r ≠ noEntry := fun he => hio (he ▸ hrmem)
      rw [if_neg hrn]
      have hlink := path
      rw [hsplit] at hlink
      obtain ⟨_, _, _, hlink⟩ := path_append.mp hlink
      cases hp : p.reverse with
      | nil =>
        rw [hp] at hlink hsplit
        have hend : (worker.workQueue r).next = noEntry := hlink
        rw [if_pos hend]
        exact ⟨_, x :: l, [], rfl, by simp, ⟨by simpa [hsplit] using hstop, by simp⟩,
          inserted_tail hentry hnodup path back hsplit hnext⟩
      | cons y p' =>
        rw [hp] at hlink hsplit
        have hy : (worker.workQueue r).next = y := hlink.1
        have hyn : y ≠ noEntry := fun he => hio (by rw [hsplit, ← he]; simp)
        rw [if_neg (by rw [hy]; exact hyn)]
        have hpast' : ∀ i ∈ y :: p', ¬ worker.Stops t i := by
          intro i hi
          exact hpast i (List.mem_reverse.mp (hp ▸ hi))
        refine ⟨_, q'.reverse ++ [r], y :: p', rfl, by rw [hsplit]; simp,
          ⟨by simpa using hstop, hpast'⟩, ?_⟩
        have hins := inserted_between hentry hnodup path back hsplit
        have hset : (((worker.setPrev entry r).setNext entry y).workQueue entry).next = y := by
          simp [IoWorker.setNext, IoWorker.set]
        rw [hy, hset]
        exact hins

theorem allocateEntry_spec (k : Lists worker free io) {e : Nat} {rest : List Nat}
    (hfree : free = e :: rest) :
    allocateEntry worker = .ok (if rest = [] then none
      else some ({ worker with freeSeq := worker.next e }, e)) := by
  have hpath := k.freePath
  rw [hfree] at hpath
  obtain ⟨hseq, hrest⟩ := hpath
  unfold allocateEntry
  rw [hseq]
  cases rest with
  | nil =>
    have hend : (worker.workQueue e).next = noEntry := hrest
    simp [hend, noEntry, nrMaxParallelIo]
  | cons x rest =>
    have hx : (worker.workQueue e).next = x := hrest.1
    have hlt : x < nrMaxParallelIo := k.free_lt (by simp [hfree])
    simp [IoWorker.next, hx, hlt]

/-- The head `e` of the free list has become an entry in flight with the fields that `fill` sets. -/
structure Placed (worker : IoWorker) (fill : IoWork → IoWork) (free io : List Nat) (e : Nat)
    (worker' : IoWorker) (free' io' : List Nat) : Prop where
  free : free = e :: free'
  io : io'.Perm (e :: io)
  lists : Lists worker' free' io'
  entry : (worker'.workQueue e).data = (fill (worker.workQueue e)).data
  others : ∀ i, i ≠ e → (worker'.workQueue i).data = (worker.workQueue i).data
  latestNsecs : worker'.latestNsecs = worker.latestNsecs

/-- What `fill` has to leave behind for the insertion: an unlinked entry. -/
def Unlinks (fill : IoWork → IoWork) : Prop := ∀ w, (fill w).next = noEntry ∧ (fill w).prev = noEntry

theorem requestWork_unlinks (sqid cqid sqEntry commandId nsecsStart now : Nat) (ret : NvmevResult) :
    Unlinks (requestWork sqid cqid sqEntry commandId nsecsStart now ret) := fun _ => ⟨rfl, rfl⟩

theorem internalWork_unlinks (sqid nsecsTarget writeBuffer buffsToRelease now : Nat) :
    Unlinks (internalWork sqid nsecsTarget writeBuffer buffsToRelease now) := fun _ => ⟨rfl, rfl⟩

/-- With two free entries or more the work is placed where the search ends. -/
theorem placeEntry_room (k : Lists worker free io) {e : Nat} {rest : List Nat}
    (hfree : free = e :: rest) (hrest : rest ≠ []) {fill : IoWork → IoWork} (hfill : Unlinks fill)
    (t : Nat) : ∃ worker' before after, placeEntry worker fill t = .ok (some worker') ∧
      io = before ++ after ∧ Sought worker t before after ∧
      Placed worker fill free io e worker' rest (before ++ e :: after) := by
  have hnodup := k.nodup
  have hall := k.all
  have hpath := k.freePath
  rw [hfree] at hnodup hall hpath
  obtain ⟨he, hnodup⟩ := List.nodup_cons.mp hnodup
  have heio : e ∉ io := fun h => he (List.mem_append_right rest h)
  have herest : e ∉ rest := fun h => he (List.mem_append_left io h)
  -- the worker with the entry taken out and filled in, before the insertion
  let taken : IoWorker := { worker with freeSeq := worker.next e }
  let filled : IoWorker := taken.set e (fill (worker.workQueue e))
  have hn : filled.next = Function.update worker.next e noEntry := by
    rw [IoWorker.set_next, (hfill _).1]
    rfl
  have hp : filled.prev = Function.update worker.prev e noEntry := by
    rw [IoWorker.set_prev, (hfill _).2]
    rfl
  have hlen : io.length ≤ nrMaxParallelIo := by
    have h := k.length
    omega
  obtain ⟨worker', before, after, hw, hio, hsought, hins⟩ := insertReqSorted_spec filled e
    (by rw [hn]; exact k.ioPath.update heio)
    (fun h => by rw [hp]; exact (k.ioBack h).update (by simpa using heio))
    (List.Nodup.of_append_right hnodup) k.noEntry_io hlen heio
    (by rw [hn, Function.update_self]) (by rw [hp, Function.update_self]) t
  have hstops : ∀ i ∈ io, filled.Stops t i ↔ worker.Stops t i := by
    intro i hi
    have hie : i ≠ e := fun h => heio (h ▸ hi)
    simp [IoWorker.Stops, filled, IoWorker.set, taken, hie]
  refine ⟨worker', before, after, ?_, hio, ⟨?_, ?_⟩, hfree, ?_,
    ⟨?_, ?_, hins.path, fun _ => hins.back, ?_⟩, ?_, ?_, hins.latestNsecs⟩
  · unfold placeEntry
    rw [allocateEntry_spec k hfree, if_neg hrest]
    simp only [ok_bind]
    rw [hw]
    rfl
  · intro i hi
    have hm : i ∈ io := hio ▸ List.mem_append_left after (List.mem_of_mem_getLast? hi)
    exact (hstops i hm).mp (hsought.stop i hi)
  · intro i hi
    have hm : i ∈ io := hio ▸ List.mem_append_right before hi
    exact fun h => hsought.past i hi ((hstops i hm).mpr h)
  · rw [hio]
    exact List.perm_middle
  · rw [hins.freeSeq]
    refine hpath.2.congr ?_
    intro i hi
    have hie : i ≠ e := fun h => herest (h ▸ hi)
    have hii : i ∉ before ++ after := by
      rw [← hio]
      exact fun h => (List.disjoint_of_nodup_append hnodup) hi h
    rw [hins.next i hie hii, hn, Function.update_of_ne hie]
  · rw [hins.freeSeqEnd]
    have hend := k.freeEnd
    rw [hfree, List.getLast?_cons_of_ne_nil hrest] at hend
    exact hend
  · rw [hio] at hall
    have hmove : (rest ++ (before ++ e :: after)).Perm (e :: rest ++ (before ++ after)) := by
      rw [← List.append_assoc, ← List.append_assoc]
      exact List.perm_middle
    exact hmove.trans hall
  · rw [hins.data]
    simp [filled, IoWorker.set, taken]
  · intro i hi
    rw [hins.data]
    simp [filled, IoWorker.set, taken, hi]

theorem placeEntry_full (k : Lists worker free io) {e : Nat} (hfree : free = [e])
    (fill : IoWork → IoWork) (t : Nat) : placeEntry worker fill t = .ok none := by
  unfold placeEntry
  rw [allocateEntry_spec k hfree, if_pos rfl]
  rfl

theorem placeEntry_spec (k : Lists worker free io) {fill : IoWork → IoWork} (hfill : Unlinks fill)
    (t : Nat) : (free.length = 1 ∧ placeEntry worker fill t = .ok none) ∨
      (2 ≤ free.length ∧ ∃ e worker' free' io', placeEntry worker fill t = .ok (some worker') ∧
        Placed worker fill free io e worker' free' io') := by
  cases hf : free with
  | nil => exact absurd hf k.free_ne_nil
  | cons e rest =>
    rw [← hf]
    by_cases hrest : rest = []
    · subst hrest
      exact Or.inl ⟨by rw [hf]; rfl, placeEntry_full k hf fill t⟩
    · obtain ⟨worker', before, after, hw, -, -, hp⟩ := placeEntry_room k hf hrest hfill t
      have hlen := List.length_pos_of_ne_nil hrest
      exact Or.inr ⟨by rw [hf, List.length_cons]; omega, e, worker', rest, _, hw, hp⟩

theorem lastCompleted_spec {l : List Nat} {curr : Nat} (h : Path worker.next curr l noEntry)
    (hl : noEntry ∉ l) (last : Nat) {fuel : Nat} (hfuel : l.length ≤ fuel) :
    ∃ p q, l = p ++ q ∧ (∀ i ∈ p, (worker.workQueue i).reclaimable worker.latestNsecs = true) ∧
      lastCompleted worker fuel last curr = .ok (p.getLastD last) := by
  induction l generalizing curr fuel last with
  | nil =>
    have hc : curr = noEntry := h
    refine ⟨[], [], rfl, fun _ hi => absurd hi List.not_mem_nil, ?_⟩
    cases fuel with
    | zero => rw [lastCompleted, if_pos hc, List.getLastD_nil]
    | succ fuel => rw [lastCompleted, if_pos hc, List.getLastD_nil]
  | cons x l ih =>
    obtain ⟨rfl, h⟩ := h
    cases fuel with
    | zero => simp at hfuel
    | succ fuel =>
      have hc : curr ≠ noEntry := fun he => hl (he ▸ List.mem_cons_self)
      rw [lastCompleted, if_neg hc]
      by_cases hr : (worker.workQueue curr).reclaimable worker.latestNsecs = true
      · rw [if_pos hr]
        obtain ⟨p, q, hpq, hp, hlast⟩ :=
          ih h (List.not_mem_of_not_mem_cons hl) curr (Nat.le_of_succ_le_succ hfuel)
        refine ⟨curr :: p, q, by rw [hpq]; rfl, ?_, ?_⟩
        · intro i hi
          rcases List.mem_cons.mp hi with rfl | hi
          · exact hr
          · exact hp i hi
        · rw [List.getLastD_cons]
          exact hlast
      · rw [if_neg hr]
        exact ⟨[], curr :: l, rfl, fun _ hi => absurd hi List.not_mem_nil, rfl⟩

/-- The completed prefix `done` of the list in flight has gone to the end of the free list. -/
structure Reclaimed (worker : IoWorker) (free done left : List Nat) (worker' : IoWorker) : Prop where
  lists : Lists worker' (free ++ done) left
  completed : ∀ i ∈ done, (worker.workQueue i).reclaimable worker.latestNsecs = true
  data : ∀ i, (worker'.workQueue i).data = (worker.workQueue i).data
  latestNsecs : worker'.latestNsecs = worker.latestNsecs

section Splice
variable {last : Nat}

theorem splice_data (i : Nat) :
    ((splice worker last).workQueue i).data = (worker.workQueue i).data := by
  unfold splice
  dsimp only
  rw [IoWorker.setNext_data, IoWorker.setPrev_data, IoWorker.setNext_data]
  split
  · rfl
  · exact IoWorker.setPrev_data

theorem splice_fields (worker : IoWorker) (last : Nat) : (splice worker last).freeSeq = worker.freeSeq ∧
    (splice worker last).freeSeqEnd = last ∧ (splice worker last).ioSeq = worker.next last ∧
    (splice worker last).ioSeqEnd = worker.ioSeqEnd ∧
    (splice worker last).latestNsecs = worker.latestNsecs := by
  unfold splice
  by_cases h : (worker.workQueue last).next = noEntry
  · simp [h, IoWorker.next]
  · simp [h, IoWorker.next]

/-- The tail of the free list is linked to the first entry, that one back to the tail. -/
def joined (worker : IoWorker) (last first tail : Nat) : IoWorker :=
  ((worker.setNext last noEntry).setPrev first tail).setNext tail first

theorem splice_links_end (h : worker.next last = noEntry) :
    (splice worker last).next = (joined worker last worker.ioSeq worker.freeSeqEnd).next ∧
    (splice worker last).prev = (joined worker last worker.ioSeq worker.freeSeqEnd).prev := by
  apply IoWorker.links_congr
  have h' : (worker.workQueue last).next = noEntry := h
  unfold splice
  dsimp only
  rw [if_pos h']
  rfl

theorem splice_links (h : worker.next last ≠ noEntry) :
    (splice worker last).next =
      (joined (worker.setPrev (worker.next last) noEntry) last worker.ioSeq worker.freeSeqEnd).next ∧
    (splice worker last).prev =
      (joined (worker.setPrev (worker.next last) noEntry) last worker.ioSeq worker.freeSeqEnd).prev := by
  apply IoWorker.links_congr
  have h' : (worker.workQueue last).next ≠ noEntry := h
  unfold splice
  dsimp only
  rw [if_neg h']
  rfl

theorem splice_next : (splice worker last).next =
    Function.update (Function.update worker.next last noEntry) worker.freeSeqEnd worker.ioSeq := by
  by_cases h : worker.next last = noEntry
  · rw [(splice_links_end h).1]
    simp [joined]
  · rw [(splice_links h).1]
    simp [joined]

theorem splice_prev (h : worker.next last ≠ noEntry) : (splice worker last).prev =
    Function.update (Function.update worker.prev (worker.next last) noEntry) worker.ioSeq
      worker.freeSeqEnd := by
  rw [(splice_links h).2]
  simp [joined]

theorem splice_lists {done left : List Nat} (k : Lists worker free (done ++ [last] ++ left)) :
    Lists (splice worker last) (free ++ (done ++ [last])) left := by
  obtain ⟨hfs, hfe, his, hie, -⟩ := splice_fields worker last
  obtain ⟨init, tail, hfree⟩ : ∃ init tail, free = init ++ [tail] :=
    ⟨_, _, (List.dropLast_append_getLast k.free_ne_nil).symm⟩
  have htail : worker.freeSeqEnd = tail := by
    have h := k.freeEnd
    rw [hfree, List.getLast?_concat] at h
    exact (Option.some.inj h).symm
  have hnodup := k.nodup
  obtain ⟨hnfree, hnio, hdisj⟩ := List.nodup_append.mp hnodup
  obtain ⟨hndone, hnleft, hdl⟩ := List.nodup_append.mp hnio
  obtain ⟨b, hp, hq⟩ := path_append.mp k.ioPath
  have hb : worker.next last = b := (path_snoc.mp hp).2
  have hld : last ∉ done := fun h => (List.disjoint_of_nodup_append hndone) h (by simp)
  have hll : last ∉ left := fun h => hdl last (by simp) last h rfl
  have hlf : last ∉ free := fun h => hdisj last h last (by simp) rfl
  have htf : tail ∈ free := by simp [hfree]
  have htio : tail ∉ done ++ [last] ++ left := fun h => hdisj tail htf tail h rfl
  have hti : tail ∉ init := by
    rw [hfree] at hnfree
    exact fun h => (List.disjoint_of_nodup_append hnfree) h (by simp)
  refine ⟨?_, ?_, ?_, ?_, ?_⟩
  · rw [hfs, splice_next, htail]
    have hpath := k.freePath
    rw [hfree] at hpath hlf
    have hcut : Path (Function.update worker.next last noEntry) worker.freeSeq (init ++ [tail]) noEntry :=
      hpath.update hlf
    have hjoin := hcut.redirect hti worker.ioSeq
    have hdone := (hp.redirect hld noEntry).update (x := tail) (y := worker.ioSeq)
      (fun h => htio (List.mem_append_left left h))
    rw [hfree]
    exact path_append.mpr ⟨_, hjoin, hdone⟩
  · rw [hfe, ← List.append_assoc, List.getLast?_concat]
  · rw [his, splice_next, htail, hb]
    exact (hq.update hll).update (fun h => htio (List.mem_append_right _ h))
  · intro hleft
    obtain ⟨x, left', rfl⟩ := List.exists_cons_of_ne_nil hleft
    have hbx : b = x := hq.1
    have hx : x ≠ noEntry := fun he => k.noEntry_io (by simp [← he])
    rw [hie, splice_prev (by rw [hb, hbx]; exact hx), hb, hbx]
    have hback := k.ioBack (by simp)
    rw [List.reverse_append, List.reverse_cons, path_append] at hback
    obtain ⟨c, hback, -⟩ := hback
    have hxl : x ∉ left'.reverse := by
      simpa using (List.nodup_cons.mp hnleft).1
    rw [List.reverse_cons]
    refine (hback.redirect hxl noEntry).update ?_
    intro hm
    have hfm : worker.ioSeq ∈ done ++ [last] := by
      cases done with
      | nil =>
        have h : worker.ioSeq = last := hp.1
        simp [h]
      | cons y done =>
        have h : worker.ioSeq = y := hp.1
        simp [h]
    have hm' : worker.ioSeq ∈ x :: left' := by
      rw [← List.reverse_cons] at hm
      exact List.mem_reverse.mp hm
    exact hdl _ hfm _ hm' rfl
  · rw [List.append_assoc]
    exact k.all

end Splice

/-- Reclaim returns and moves a completed prefix. -/
theorem reclaimWorker_spec (k : Lists worker free io) : ∃ worker' done left,
    reclaimWorker worker = .ok worker' ∧ io = done ++ left ∧ Reclaimed worker free done left worker' := by
  have hlen : io.length ≤ nrMaxParallelIo := by
    have h := k.length
    omega
  obtain ⟨done, left, hio, hdone, hlast⟩ := lastCompleted_spec k.ioPath k.noEntry_io noEntry hlen
  unfold reclaimWorker
  rw [hlast, ok_bind]
  rcases List.eq_nil_or_concat done with rfl | ⟨done, last, rfl⟩
  · rw [List.getLastD_nil, if_pos rfl]
    rw [List.nil_append] at hio
    subst hio
    exact ⟨worker, [], io, rfl, rfl, by rw [List.append_nil]; exact k, hdone, fun _ => rfl, rfl⟩
  · have hmem : last ∈ io := by simp [hio]
    have hne : last ≠ noEntry := Lists.lt_noEntry (k.io_lt hmem)
    rw [List.concat_eq_append] at hio hdone ⊢
    rw [List.getLastD_concat, if_neg hne]
    rw [hio] at k
    exact ⟨_, done ++ [last], left, rfl, hio, splice_lists k, hdone, splice_data,
      (splice_fields worker last).2.2.2.2⟩

end NVMeVirt
