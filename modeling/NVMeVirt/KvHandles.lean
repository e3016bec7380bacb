import NVMeVirt.KvIter
import Mathlib.Data.Finset.Card
import Mathlib.Order.Interval.Finset.Nat

/-!
# Iterator handles

A run of requests as the host sees it: `held` are the handles that opens have returned and that have not
been closed. The table of the code and this set agree in every run. What goes wrong is the answer of an
open that finds no free entry.
-/

namespace NVMeVirt
set_option autoImplicit false
open Outcome

variable {kv : KvIterFtl} {held : Finset Nat} {dirty : Bool} {cmd : NvmeKvIterCommand}
  {mem host : Nat → UInt8} {o : KvIterOutcome} {i : Nat}

def NvmeKvIterCommand.IsOpen (cmd : NvmeKvIterCommand) : Prop :=
  cmd.opcode = nvmeCmdKvIterReq ∧ cmd.option &&& iterOptionOpen ≠ 0

def NvmeKvIterCommand.IsClose (cmd : NvmeKvIterCommand) : Prop :=
  cmd.opcode = nvmeCmdKvIterReq ∧ cmd.option &&& iterOptionOpen = 0 ∧ cmd.option &&& iterOptionClose ≠ 0

instance (cmd : NvmeKvIterCommand) : Decidable cmd.IsOpen := inferInstanceAs (Decidable (_ ∧ _))

instance (cmd : NvmeKvIterCommand) : Decidable cmd.IsClose := inferInstanceAs (Decidable (_ ∧ _))

/-- The handles that the host has when a request has been answered. -/
def heldAfter (held : Finset Nat) (cmd : NvmeKvIterCommand) (r : KvResult) : Finset Nat :=
  if cmd.IsOpen then if r.status = kvSuccess then insert r.result0 held else held
  else if cmd.IsClose then held.erase cmd.iterHandle
  else held

/-- A request that has been answered, with what the table and the host had before. -/
structure IterEvent where
  before : KvIterFtl
  held : Finset Nat
  cmd : NvmeKvIterCommand
  after : KvIterOutcome

/-- Runs from `kv_init_namespace` on. Commands of other kinds change the mapping table. -/
inductive IterRun (dirty : Bool) : List IterEvent → KvIterFtl → Finset Nat → Prop where
  | init (ftl : KvFtl) : IterRun dirty [] (kvInitIter ftl dirty) ∅
  | request {log : List IterEvent} {kv : KvIterFtl} {held : Finset Nat} {cmd : NvmeKvIterCommand}
      {mem host : Nat → UInt8} {o : KvIterOutcome} : IterRun dirty log kv held →
      doPerformKvIterIo kv cmd mem host = .ok o →
      IterRun dirty (⟨kv, held, cmd, o⟩ :: log) o.kv (heldAfter held cmd o.result)
  | table {log : List IterEvent} {kv : KvIterFtl} {held : Finset Nat} (ftl : KvFtl) :
      IterRun dirty log kv held → IterRun dirty log { kv with toKvFtl := ftl } held

/-- The entries that opens can use, from 1 on. -/
def usableHandles (dirty : Bool) : Nat := if dirty then 15 else 16

/-- What a request should do to the handles. -/
structure EventRight (e : IterEvent) : Prop where
  opened : e.cmd.IsOpen → e.after.result.status = kvSuccess →
    1 ≤ e.after.result.result0 ∧ e.after.result.result0 ≤ 16 ∧ e.after.result.result0 ∉ e.held ∧
      ∃ buf, e.after.kv.iterHandle e.after.result.result0 =
        .context ⟨e.cmd.iterVal, e.cmd.iterBitmask, buf, 0⟩
  exhausted : e.cmd.IsOpen → e.held.card = 16 → e.after.result.status ≠ kvSuccess
  others : ∀ h ∈ e.held, e.cmd.IsOpen ∨ h ≠ e.cmd.iterHandle → e.after.kv.iterHandle h = e.before.iterHandle h

def IterHandle.IsContext (h : IterHandle) : Prop := ∃ c, h = .context c

theorem doPerformKvIterIo_cases (h : doPerformKvIterIo kv cmd mem host = .ok o) :
    (cmd.IsOpen ∧ o = ⟨(kvIterOpen kv cmd mem).1, host, (kvIterOpen kv cmd mem).2⟩) ∨
    (¬ cmd.IsOpen ∧ cmd.IsClose ∧ ∃ r, kvIterClose kv cmd = .ok r ∧ o = ⟨r.1, host, r.2⟩) ∨
    (¬ cmd.IsOpen ∧ ¬ cmd.IsClose ∧ (kvIterRead kv cmd host = .ok o ∨ o = ⟨kv, host, ⟨0, kvSuccess⟩⟩)) := by
  unfold doPerformKvIterIo at h
  split at h
  · rename_i hreq
    split at h
    · rename_i hopen
      cases h
      exact Or.inl ⟨⟨hreq, hopen⟩, rfl⟩
    · rename_i hopen
      have hnot : ¬ cmd.IsOpen := fun hc => hopen hc.2
      split at h
      · rename_i hclose
        obtain ⟨r, hr, h⟩ := bind_eq_ok.mp h
        cases h
        exact Or.inr (Or.inl ⟨hnot, ⟨hreq, not_not.mp hopen, hclose⟩, r, hr, rfl⟩)
      · rename_i hclose
        cases h
        exact Or.inr (Or.inr ⟨hnot, fun hc => hclose hc.2.2, Or.inr rfl⟩)
  · rename_i hreq
    refine Or.inr (Or.inr ⟨fun hc => hreq hc.1, fun hc => hreq hc.1, ?_⟩)
    split at h
    · exact Or.inl h
    · cases h
      exact Or.inr rfl

structure Agree (dirty : Bool) (kv : KvIterFtl) (held : Finset Nat) : Prop where
  held_range : ∀ i ∈ held, 1 ≤ i ∧ i ≤ usableHandles dirty
  held_iff : ∀ i, 1 ≤ i → i ≤ usableHandles dirty → (i ∈ held ↔ (kv.iterHandle i).IsContext)
  usable : ∀ i ≤ usableHandles dirty, kv.iterHandle i ≠ .stray
  zero : kv.iterHandle 0 = .null
  last : usableHandles dirty < 16 → kv.iterHandle 16 = .stray

theorem usableHandles_cases (dirty : Bool) : usableHandles dirty = 15 ∨ usableHandles dirty = 16 := by
  cases dirty
  · exact Or.inr rfl
  · exact Or.inl rfl

theorem IterHandle.isContext_iff (h : IterHandle) (hs : h ≠ .stray) : h.IsContext ↔ h ≠ .null := by
  cases h with
  | null => exact ⟨fun ⟨_, he⟩ => (nomatch he), fun he => absurd rfl he⟩
  | stray => exact absurd rfl hs
  | context c => exact ⟨fun _ he => (nomatch he), fun _ => ⟨c, rfl⟩⟩

theorem Agree.null_not_held (a : Agree dirty kv held) (h : kv.iterHandle i = .null) : i ∉ held := by
  intro hmem
  obtain ⟨hlo, hhi⟩ := a.held_range i hmem
  obtain ⟨c, hc⟩ := (a.held_iff i hlo hhi).mp hmem
  rw [hc] at h
  cases h

/-- Only the entry that the loop of `kv_init_namespace` leaves out can be stray. -/
theorem Agree.le_usable (a : Agree dirty kv held) (h16 : i ≤ 16) (h : kv.iterHandle i ≠ .stray) :
    i ≤ usableHandles dirty := by
  have husable := usableHandles_cases dirty
  by_contra hout
  obtain rfl : i = 16 := by omega
  exact h (a.last (by omega))

theorem Agree.free_not_held (a : Agree dirty kv held) (h : freeIterHandle kv = some i) :
    i ∉ held ∧ i ≤ usableHandles dirty := by
  obtain ⟨_, hhi, hnull⟩ := freeIterHandle_some h
  refine ⟨a.null_not_held hnull, a.le_usable hhi ?_⟩
  rw [hnull]
  exact fun hc => nomatch hc

/-- An open finds an entry as long as one of the usable ones is not held. -/
theorem Agree.free_iff (a : Agree dirty kv held) :
    freeIterHandle kv = none ↔ usableHandles dirty ≤ held.card := by
  have hsub : held ⊆ Finset.Icc 1 (usableHandles dirty) :=
    fun i hi => Finset.mem_Icc.mpr (a.held_range i hi)
  have hcard : (Finset.Icc 1 (usableHandles dirty)).card = usableHandles dirty := by
    rw [Nat.card_Icc, Nat.add_sub_cancel]
  have husable := usableHandles_cases dirty
  constructor
  · intro hnone
    have hall : Finset.Icc 1 (usableHandles dirty) ⊆ held := by
      intro i hi
      obtain ⟨hlo, hhi⟩ := Finset.mem_Icc.mp hi
      apply (a.held_iff i hlo hhi).mpr
      exact ((kv.iterHandle i).isContext_iff (a.usable i hhi)).mpr (freeIterHandle_none hnone hlo (by omega))
    exact hcard.ge.trans (Finset.card_le_card hall)
  · intro hfull
    have heq : held = Finset.Icc 1 (usableHandles dirty) :=
      Finset.eq_of_subset_of_card_le hsub (hcard.le.trans hfull)
    cases hfree : freeIterHandle kv with
    | none => rfl
    | some i =>
      obtain ⟨hnot, hin⟩ := a.free_not_held hfree
      have hmem : i ∈ held := heq ▸ Finset.mem_Icc.mpr ⟨(freeIterHandle_some hfree).1, hin⟩
      exact absurd hmem hnot

/-- Setting entry `i` to a context or to null is opening or closing it. -/
theorem Agree.set (a : Agree dirty kv held) (hlo : 1 ≤ i) (hhi : i ≤ usableHandles dirty) {h : IterHandle}
    (hs : h ≠ .stray) {held' : Finset Nat} (hself : i ∈ held' ↔ h.IsContext)
    (hother : ∀ j, j ≠ i → (j ∈ held' ↔ j ∈ held)) : Agree dirty (kv.setHandle i h) held' := by
  have husable := usableHandles_cases dirty
  constructor
  · intro j hj
    by_cases hji : j = i
    · rw [hji]
      exact ⟨hlo, hhi⟩
    · exact a.held_range j ((hother j hji).mp hj)
  · intro j hjlo hjhi
    by_cases hji : j = i
    · rw [hji, KvIterFtl.setHandle_same]
      exact hself
    · rw [kv.setHandle_other h hji, hother j hji]
      exact a.held_iff j hjlo hjhi
  · intro j hj
    by_cases hji : j = i
    · rw [hji, KvIterFtl.setHandle_same]
      exact hs
    · rw [kv.setHandle_other h hji]
      exact a.usable j hj
  · rw [kv.setHandle_other h (by omega)]
    exact a.zero
  · intro hlt
    rw [kv.setHandle_other h (by omega)]
    exact a.last hlt

theorem Agree.context_held (a : Agree dirty kv held) {c : KvIterContext} (h16 : i ≤ 16)
    (h : kv.iterHandle i = .context c) : 1 ≤ i ∧ i ≤ usableHandles dirty ∧ i ∈ held := by
  have hlo : 1 ≤ i := by
    by_contra hzero
    obtain rfl : i = 0 := by omega
    rw [a.zero] at h
    cases h
  have hhi : i ≤ usableHandles dirty := by
    apply a.le_usable h16
    rw [h]
    exact fun hc => nomatch hc
  exact ⟨hlo, hhi, (a.held_iff i hlo hhi).mpr ⟨c, h⟩⟩

theorem kvIterOpen_some (mem : Nat → UInt8) (h : freeIterHandle kv = some i) : kvIterOpen kv cmd mem =
    (kv.setHandle i (.context ⟨cmd.iterVal, cmd.iterBitmask, mem, 0⟩), ⟨i, kvSuccess⟩) := by
  unfold kvIterOpen
  rw [h]

theorem kvIterOpen_none (mem : Nat → UInt8) (h : freeIterHandle kv = none) :
    kvIterOpen kv cmd mem = (kv, ⟨1, kvSuccess⟩) := by
  unfold kvIterOpen
  rw [h]

theorem Agree.full_held (a : Agree dirty kv held) (h : freeIterHandle kv = none) : 1 ∈ held := by
  have husable := usableHandles_cases dirty
  apply (a.held_iff 1 (Nat.le_refl 1) (by omega)).mpr
  apply ((kv.iterHandle 1).isContext_iff (a.usable 1 (by omega))).mpr
  exact freeIterHandle_none h (Nat.le_refl 1) (by decide)

theorem Agree.open (a : Agree dirty kv held) (mem host : Nat → UInt8) (hopen : cmd.IsOpen) :
    Agree dirty (kvIterOpen kv cmd mem).1 (heldAfter held cmd (kvIterOpen kv cmd mem).2) ∧
      (EventRight ⟨kv, held, cmd, (kvIterOpen kv cmd mem).1, host, (kvIterOpen kv cmd mem).2⟩ ↔
        held.card < usableHandles dirty) := by
  have husable := usableHandles_cases dirty
  unfold heldAfter
  rw [if_pos hopen]
  cases hfree : freeIterHandle kv with
  | none =>
    have hheld := a.full_held hfree
    have hfull := a.free_iff.mp hfree
    rw [kvIterOpen_none mem hfree, if_pos rfl, Finset.insert_eq_of_mem hheld]
    refine ⟨a, ?_⟩
    constructor
    · intro hright
      exact absurd hheld (hright.opened hopen rfl).2.2.1
    · intro hlt
      omega
  | some i =>
    obtain ⟨hlo, hhi, _⟩ := freeIterHandle_some hfree
    obtain ⟨hnot, hin⟩ := a.free_not_held hfree
    have hroom : held.card < usableHandles dirty := by
      by_contra hfull
      rw [a.free_iff.mpr (Nat.not_lt.mp hfull)] at hfree
      cases hfree
    rw [kvIterOpen_some mem hfree, if_pos rfl]
    refine ⟨?_, iff_of_true ?_ hroom⟩
    · refine a.set hlo hin ?_ ?_ ?_
      · exact fun hc => nomatch hc
      · exact iff_of_true (Finset.mem_insert_self _ _) ⟨_, rfl⟩
      · intro j hj
        rw [Finset.mem_insert, or_iff_right hj]
    · constructor
      · intro _ _
        exact ⟨hlo, hhi, hnot, mem, KvIterFtl.setHandle_same _ _ _⟩
      · intro _ hcard
        change held.card = 16 at hcard
        omega
      · intro h hmem _
        exact kv.setHandle_other _ (fun he => hnot (he ▸ hmem))

theorem Agree.close (a : Agree dirty kv held) (host : Nat → UInt8) {r : KvIterFtl × KvResult}
    (hnot : ¬ cmd.IsOpen) (hclose : cmd.IsClose) (h : kvIterClose kv cmd = .ok r) :
    Agree dirty r.1 (heldAfter held cmd r.2) ∧ EventRight ⟨kv, held, cmd, r.1, host, r.2⟩ := by
  unfold heldAfter
  rw [if_neg hnot, if_pos hclose]
  obtain ⟨h16, _, hcase⟩ := kvIterClose_ok h
  have hopens : ∀ {P : Prop}, cmd.IsOpen → P := fun hc => absurd hc hnot
  rcases hcase with ⟨hnull, hr⟩ | ⟨c, hctx, hr⟩
  · rw [hr, Finset.erase_eq_of_notMem (a.null_not_held hnull)]
    exact ⟨a, hopens, hopens, fun _ _ _ => rfl⟩
  · obtain ⟨hlo, hhi, _⟩ := a.context_held h16 hctx
    rw [hr]
    refine ⟨?_, hopens, hopens, ?_⟩
    · refine a.set hlo hhi ?_ ?_ ?_
      · exact fun hc => nomatch hc
      · exact iff_of_false (Finset.notMem_erase _ _) (fun ⟨_, hc⟩ => nomatch hc)
      · intro j hj
        rw [Finset.mem_erase, and_iff_right hj]
    · intro j _ hj
      rcases hj with hc | hj
      · exact hopens hc
      · exact kv.setHandle_other _ hj

theorem Agree.read (a : Agree dirty kv held) (hnot : ¬ cmd.IsOpen) (h : kvIterRead kv cmd host = .ok o) :
    Agree dirty o.kv held ∧ EventRight ⟨kv, held, cmd, o⟩ := by
  have hopens : ∀ {P : Prop}, cmd.IsOpen → P := fun hc => absurd hc hnot
  obtain ⟨h16, hcase⟩ := kvIterRead_ok h
  rcases hcase with ⟨_, rfl⟩ | ⟨c, hctx, hread⟩
  · exact ⟨a, hopens, hopens, fun _ _ _ => rfl⟩
  · obtain ⟨hlo, hhi, hmem⟩ := a.context_held h16 hctx
    obtain ⟨pos, buf, hkv⟩ := readContext_kv hread
    refine ⟨?_, hopens, hopens, ?_⟩
    · rw [hkv]
      refine a.set hlo hhi ?_ ?_ ?_
      · exact fun hc => nomatch hc
      · exact iff_of_true hmem ⟨_, rfl⟩
      · exact fun _ _ => Iff.rfl
    · intro j _ hj
      dsimp only
      rcases hj with hc | hj
      · exact hopens hc
      · rw [hkv]
        exact kv.setHandle_other _ hj

/-- A request keeps the two sides in agreement. It goes right unless it is an open without a usable entry. -/
theorem Agree.request (a : Agree dirty kv held) (h : doPerformKvIterIo kv cmd mem host = .ok o) :
    Agree dirty o.kv (heldAfter held cmd o.result) ∧
      (EventRight ⟨kv, held, cmd, o⟩ ↔ (cmd.IsOpen → held.card < usableHandles dirty)) := by
  rcases doPerformKvIterIo_cases h with ⟨hopen, rfl⟩ | ⟨hnot, hclose, r, hr, rfl⟩ | ⟨hnot, hclose, hrest⟩
  · obtain ⟨hagree, hright⟩ := a.open mem host hopen
    exact ⟨hagree, hright.trans ⟨fun hlt _ => hlt, fun hlt => hlt hopen⟩⟩
  · obtain ⟨hagree, hright⟩ := a.close host hnot hclose hr
    exact ⟨hagree, iff_of_true hright (fun hc => absurd hc hnot)⟩
  · have hsame : heldAfter held cmd o.result = held := by
      unfold heldAfter
      rw [if_neg hnot, if_neg hclose]
    rw [hsame]
    rcases hrest with hread | rfl
    · obtain ⟨hagree, hright⟩ := a.read hnot hread
      exact ⟨hagree, iff_of_true hright (fun hc => absurd hc hnot)⟩
    · refine ⟨a, iff_of_true ?_ (fun hc => absurd hc hnot)⟩
      exact ⟨fun hc => absurd hc hnot, fun hc => absurd hc hnot, fun _ _ _ => rfl⟩

theorem agree_init (ftl : KvFtl) (dirty : Bool) : Agree dirty (kvInitIter ftl dirty) ∅ := by
  have hnull : ∀ i ≤ usableHandles dirty, (kvInitIter ftl dirty).iterHandle i = .null := by
    intro i hi
    apply if_neg
    rintro ⟨h16, rfl⟩
    have hle : i ≤ 15 := hi
    omega
  constructor
  · exact fun i hi => absurd hi (Finset.notMem_empty i)
  · intro i _ hi
    rw [hnull i hi]
    exact iff_of_false (Finset.notMem_empty i) (fun ⟨_, hc⟩ => nomatch hc)
  · intro i hi
    rw [hnull i hi]
    exact fun hc => nomatch hc
  · exact hnull 0 (Nat.zero_le _)
  · intro hlt
    cases dirty with
    | false => exact absurd hlt (by decide)
    | true => rfl

theorem IterRun.agree {log : List IterEvent} (run : IterRun dirty log kv held) : Agree dirty kv held := by
  induction run with
  | init ftl => exact agree_init ftl dirty
  | request _ h ih => exact (ih.request h).1
  | table ftl _ ih => exact ⟨ih.held_range, ih.held_iff, ih.usable, ih.zero, ih.last⟩

/-- All requests of a run go right exactly when each open comes while a usable handle is not held. -/
theorem iter_handles_iff {log : List IterEvent} (run : IterRun dirty log kv held) :
    (∀ e ∈ log, EventRight e) ↔ ∀ e ∈ log, e.cmd.IsOpen → e.held.card < usableHandles dirty := by
  induction run with
  | init => exact iff_of_true (fun _ h => nomatch h) (fun _ h => nomatch h)
  | request run h ih => rw [List.forall_mem_cons, List.forall_mem_cons, ih, (run.agree.request h).2]
  | table _ _ ih => exact ih

def openIter : NvmeKvIterCommand := ⟨nvmeCmdKvIterReq, 0, 0, 0, iterOptionOpen, 0, 0⟩

theorem openIter_open : openIter.IsOpen := by decide

theorem exists_held (ftl : KvFtl) (n : Nat) (hn : n ≤ 16) : ∃ log kv held,
    IterRun false log kv held ∧ held.card = n ∧ ∀ e ∈ log, e.cmd.IsOpen → e.held.card < 16 := by
  induction n with
  | zero => exact ⟨[], _, ∅, .init ftl, rfl, fun _ h => nomatch h⟩
  | succ n ih =>
    obtain ⟨log, kv, held, run, hcard, hlog⟩ := ih (by omega)
    have a := run.agree
    cases hfree : freeIterHandle kv with
    | none =>
      have hfull : 16 ≤ held.card := a.free_iff.mp hfree
      omega
    | some i =>
      obtain ⟨hnot, _⟩ := a.free_not_held hfree
      have hopen : doPerformKvIterIo kv openIter (fun _ => 0) (fun _ => 0) =
          .ok ⟨(kvIterOpen kv openIter (fun _ => 0)).1, fun _ => 0,
            (kvIterOpen kv openIter (fun _ => 0)).2⟩ := rfl
      refine ⟨_, _, _, run.request hopen, ?_, ?_⟩
      · unfold heldAfter
        rw [kvIterOpen_some _ hfree, if_pos openIter_open, if_pos rfl, Finset.card_insert_of_notMem hnot,
          hcard]
      · intro e hmem
        rcases List.mem_cons.mp hmem with rfl | hmem
        · exact fun _ => hcard ▸ hn
        · exact hlog e hmem

theorem iter_handles_iff_sixteen : ∃ log kv held, IterRun false log kv held ∧ held.card = 16 ∧
    ∀ e ∈ log, EventRight e := by
  obtain ⟨log, kv, held, run, hcard, hlog⟩ := exists_held emptyTable 16 (Nat.le_refl 16)
  exact ⟨log, kv, held, run, hcard, (iter_handles_iff run).mpr hlog⟩

/-- With sixteen iterators open, one more open succeeds, and with the handle of the first. -/
theorem seventeenth_open : ∃ log kv held e, IterRun false (e :: log) kv held ∧ e.cmd.IsOpen ∧
    e.held.card = 16 ∧ e.after.result = ⟨1, kvSuccess⟩ ∧ 1 ∈ e.held ∧ ¬ EventRight e := by
  obtain ⟨log, kv, held, run, hcard, _⟩ := exists_held emptyTable 16 (Nat.le_refl 16)
  have a := run.agree
  have hnone : freeIterHandle kv = none := a.free_iff.mpr hcard.ge
  have hheld := a.full_held hnone
  have hopen : doPerformKvIterIo kv openIter (fun _ => 0) (fun _ => 0) =
      .ok ⟨kv, fun _ => 0, ⟨1, kvSuccess⟩⟩ := by
    have hres : kvIterOpen kv openIter (fun _ => 0) = (kv, ⟨1, kvSuccess⟩) := kvIterOpen_none _ hnone
    change Except.ok (KvIterOutcome.mk (kvIterOpen kv openIter (fun _ => 0)).1 _
      (kvIterOpen kv openIter (fun _ => 0)).2) = _
    rw [hres]
  refine ⟨log, _, _, _, run.request hopen, openIter_open, hcard, rfl, hheld, ?_⟩
  intro hright
  exact (hright.opened openIter_open rfl).2.2.1 hheld

end NVMeVirt
