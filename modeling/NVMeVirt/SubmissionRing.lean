import NVMeVirt.AdminCompletions
import NVMeVirt.Doorbells
import NVMeVirt.IoDispatch

/-!
# The submission ring

What the calls of `nvmev_proc_dbs` take from one submission queue, whatever the handlers refuse
and wherever the doorbell goes in between.
-/

namespace NVMeVirt
set_option autoImplicit false
open Outcome Ring

variable {σ : Type} {proc : ProcIoCmd σ}

section Loop
variable (proc) (sqid queueSize : Nat) (wall now : Nat → Nat)

def slotAccepted (d : Dispatcher σ) (sqEntry wall : Nat) : Bool :=
  match d.sqes sqid with
  | none => false
  | some sq =>
    match handled proc d sq sqid sqEntry wall with
    | .error _ => false
    | .ok o => o.accepted

/-- The slots handed to a handler that accepts them, along the loop of `nvmev_proc_io_sq`. -/
def acceptedSlots : Nat → Nat → Nat → Dispatcher σ → List Nat
  | 0, _, _, _ => []
  | n + 1, seq, sqEntry, d =>
    if slotAccepted proc sqid d sqEntry (wall seq) then
      sqEntry :: match nvmevProcIo proc d sqid sqEntry (wall seq) (now seq) with
        | .ok (d, some ioSize) => acceptedSlots n (seq + 1)
            (if sqEntry + 1 = queueSize then 0 else sqEntry + 1) (d.updateSq sqid (·.dispatched ioSize))
        | _ => []
    else []

end Loop

def SubmissionQueue.ring (sq : SubmissionQueue) : Nat × Nat := (sq.queueSize, sq.stat.nrDispatched)

variable {d d' : Dispatcher σ} {sqid : Nat} {sq : SubmissionQueue}

/-- `__nvmev_proc_io` goes on with the next slot exactly when the handler has accepted this one. -/
theorem nvmevProcIo_accepted {sqEntry wall now : Nat} {size : Option Nat}
    (h : nvmevProcIo proc d sqid sqEntry wall now = .ok (d', size)) :
    slotAccepted proc sqid d sqEntry wall = size.isSome := by
  unfold nvmevProcIo at h
  unfold slotAccepted
  cases hsq : d.sqes sqid with
  | none =>
    rw [hsq] at h
    cases h
  | some sq =>
    rw [hsq] at h
    obtain ⟨o, ho, h⟩ := bind_eq_ok.mp h
    obtain ⟨io, -, h⟩ := bind_eq_ok.mp h
    dsimp only
    rw [show handled proc d sq sqid sqEntry wall = .ok o from ho]
    cases hacc : o.accepted with
    | false =>
      rw [hacc, if_pos rfl] at h
      cases h
      exact hacc
    | true =>
      rw [hacc, if_neg (by simp)] at h
      obtain ⟨io₁, -, h⟩ := bind_eq_ok.mp h
      obtain ⟨io₂, -, h⟩ := bind_eq_ok.mp h
      cases h
      exact hacc

theorem nvmevProcIo_sqes {sqEntry wall now : Nat} {size : Option Nat} (hsq : d.sqes sqid = some sq)
    (h : nvmevProcIo proc d sqid sqEntry wall now = .ok (d', size)) :
    ∃ sq', d'.sqes = Function.update d.sqes sqid (some sq') ∧ sq'.ring = sq.ring := by
  unfold nvmevProcIo at h
  rw [hsq] at h
  obtain ⟨o, -, h⟩ := bind_eq_ok.mp h
  obtain ⟨io, -, h⟩ := bind_eq_ok.mp h
  cases hacc : o.accepted with
  | false =>
    rw [hacc, if_pos rfl] at h
    cases h
    exact ⟨_, rfl, rfl⟩
  | true =>
    rw [hacc, if_neg (by simp)] at h
    obtain ⟨io₁, -, h⟩ := bind_eq_ok.mp h
    obtain ⟨io₂, -, h⟩ := bind_eq_ok.mp h
    cases h
    exact ⟨_, rfl, rfl⟩

theorem updateSq_sqes {f : SubmissionQueue → SubmissionQueue} (hsq : d.sqes sqid = some sq) :
    (d.updateSq sqid f).sqes = Function.update d.sqes sqid (some (f sq)) := by
  unfold Dispatcher.updateSq
  rw [hsq]
  rfl

theorem nvmevProcIo_others {sqEntry wall now : Nat} {size : Option Nat}
    (h : nvmevProcIo proc d sqid sqEntry wall now = .ok (d', size)) {i : Nat} (hi : i ≠ sqid) :
    d'.sqes i = d.sqes i := by
  cases hsq : d.sqes sqid with
  | none =>
    unfold nvmevProcIo at h
    rw [hsq] at h
    cases h
  | some sq =>
    obtain ⟨sq', h', -⟩ := nvmevProcIo_sqes hsq h
    rw [h', Function.update_of_ne hi]

theorem procIoLoop_others {queueSize : Nat} {wall now : Nat → Nat} {n seq sqEntry seq' : Nat}
    (h : procIoLoop proc sqid queueSize wall now n seq sqEntry d = .ok (d', seq')) {i : Nat}
    (hi : i ≠ sqid) : d'.sqes i = d.sqes i := by
  induction n generalizing d seq sqEntry with
  | zero =>
    cases h
    rfl
  | succ n ih =>
    rw [procIoLoop] at h
    obtain ⟨⟨d₁, size⟩, h₁, h⟩ := bind_eq_ok.mp h
    have hother := nvmevProcIo_others h₁ hi
    cases size with
    | none =>
      cases h
      exact hother
    | some ioSize =>
      have hupdate : (d₁.updateSq sqid (·.dispatched ioSize)).sqes i = d₁.sqes i :=
        Function.update_of_ne hi _ _
      exact (ih h).trans (hupdate.trans hother)

theorem nvmevProcIoSq_others {wall now : Nat → Nat} {newDb oldDb latest : Nat}
    (h : nvmevProcIoSq proc d sqid newDb oldDb wall now = .ok (d', latest)) {i : Nat} (hi : i ≠ sqid) :
    d'.sqes i = d.sqes i := by
  unfold nvmevProcIoSq at h
  cases hsq : d.sqes sqid with
  | none =>
    rw [hsq] at h
    cases h
    rfl
  | some sq =>
    rw [hsq] at h
    obtain ⟨⟨d₁, seq⟩, hloop, h⟩ := bind_eq_ok.mp h
    obtain ⟨_, -, h⟩ := bind_eq_ok.mp h
    cases h
    have hother : ∀ f : SubmissionQueue → SubmissionQueue, (d₁.updateSq sqid f).sqes i = d₁.sqes i :=
      fun f => Function.update_of_ne hi _ _
    rw [hother, procIoLoop_others hloop hi]

/-- The queue after `s` commands have been taken from it. -/
def Taken (sqid : Nat) (sq : SubmissionQueue) (s : Nat) (d' : Dispatcher σ) : Prop :=
  ∃ sq', d'.sqes sqid = some sq' ∧ sq'.queueSize = sq.queueSize ∧
    ∀ a, sq.stat.nrDispatched = u32 a → sq'.stat.nrDispatched = u32 (a + s)

theorem procIoLoop_taken {wall now : Nat → Nat} {n seq sqEntry seq' : Nat}
    (hsq : d.sqes sqid = some sq) (hlt : sqEntry < sq.queueSize)
    (h : procIoLoop proc sqid sq.queueSize wall now n seq sqEntry d = .ok (d', seq')) :
    ∃ s, s ≤ n ∧ seq' = seq + s ∧ Taken sqid sq s d' ∧
      acceptedSlots proc sqid sq.queueSize wall now n seq sqEntry d =
        (List.range s).map fun k => (sqEntry + k) % sq.queueSize := by
  induction n generalizing seq sqEntry d sq with
  | zero =>
    cases h
    exact ⟨0, Nat.le_refl 0, rfl, ⟨sq, hsq, rfl, fun _ h => h⟩, rfl⟩
  | succ n ih =>
    rw [procIoLoop] at h
    obtain ⟨⟨d₁, size⟩, h₁, h⟩ := bind_eq_ok.mp h
    obtain ⟨sq₁, hsq₁, hring⟩ := nvmevProcIo_sqes hsq h₁
    obtain ⟨hsize, hnr⟩ := Prod.mk.inj hring
    rw [acceptedSlots, h₁, nvmevProcIo_accepted h₁]
    cases size with
    | none =>
      cases h
      refine ⟨0, Nat.zero_le _, rfl, ⟨sq₁, ?_, hsize, fun _ h => hnr.trans h⟩, rfl⟩
      rw [hsq₁, Function.update_self]
    | some ioSize =>
      have hd₁ : d₁.sqes sqid = some sq₁ := by rw [hsq₁, Function.update_self]
      have hd₂ := updateSq_sqes (f := (·.dispatched ioSize)) hd₁
      have hqueue : (d₁.updateSq sqid (·.dispatched ioSize)).sqes sqid = some (sq₁.dispatched ioSize) := by
        rw [hd₂, Function.update_self]
      have hsize₂ : (sq₁.dispatched ioSize).queueSize = sq.queueSize := hsize
      have hnext : (if sqEntry + 1 = sq.queueSize then 0 else sqEntry + 1) < sq.queueSize := by
        split <;> omega
      rw [← hsize₂] at hnext h ⊢
      obtain ⟨s, hs, hseq, htaken, hslots⟩ := ih hqueue hnext h
      refine ⟨s + 1, by omega, by omega, ?_, ?_⟩
      · obtain ⟨sq', hsq', hsz, hn⟩ := htaken
        refine ⟨sq', hsq', hsz.trans hsize₂, fun a ha => ?_⟩
        have hone : (sq₁.dispatched ioSize).stat.nrDispatched = u32 (a + 1) := by
          unfold SubmissionQueue.dispatched
          dsimp only
          rw [hnr, ha]
          exact Nat.mod_add_mod a (2^32) 1
        rw [hn (a + 1) hone, Nat.add_assoc, Nat.add_comm 1 s]
      · dsimp only
        rw [hslots, List.range_succ_eq_map, List.map_cons, List.map_map, hsize₂,
          show (sqEntry + 0) % sq.queueSize = sqEntry from Nat.mod_eq_of_lt hlt]
        exact congrArg _ (List.map_congr_left fun k _ => slot_shift hlt k)

theorem nvmevProcIoSq_taken {wall now : Nat → Nat} {newDb oldDb latest : Nat}
    (hsq : d.sqes sqid = some sq) (hlt : oldDb < sq.queueSize)
    (h : nvmevProcIoSq proc d sqid newDb oldDb wall now = .ok (d', latest)) :
    ∃ s, s ≤ walk sq.queueSize oldDb newDb ∧ latest = (oldDb + s) % sq.queueSize ∧ Taken sqid sq s d' ∧
      acceptedSlots proc sqid sq.queueSize wall now (walk sq.queueSize oldDb newDb) 0 oldDb d =
        (List.range s).map fun k => (oldDb + k) % sq.queueSize := by
  unfold nvmevProcIoSq at h
  rw [hsq] at h
  obtain ⟨⟨d₁, seq'⟩, hloop, h⟩ := bind_eq_ok.mp h
  obtain ⟨s, hs, hseq, htaken, hslots⟩ := procIoLoop_taken hsq hlt hloop
  rw [Nat.zero_add] at hseq
  subst hseq
  have hdiv : divisor sq.queueSize = .ok sq.queueSize := if_neg (by omega)
  rw [hdiv] at h
  cases h
  refine ⟨seq', hs, rfl, ?_, hslots⟩
  obtain ⟨sq', hsq', hsize, hnr⟩ := htaken
  have hself : ∀ f : SubmissionQueue → SubmissionQueue,
      (d₁.updateSq sqid f).sqes sqid = some (f sq') := by
    intro f
    rw [updateSq_sqes hsq', Function.update_self]
  exact ⟨_, hself _, hsize, hnr⟩

/-- The queue and its tail doorbell are the same in both states, the contents of the slots and
the numbers of commands in flight apart. -/
structure SameQueue (sqid : Nat) (v v' : NvmevDev) : Prop where
  ring : (v'.sqes sqid).map SubmissionQueue.ring = (v.sqes sqid).map SubmissionQueue.ring
  dbs : v'.dbs (sqid * 2) = v.dbs (sqid * 2)
  oldDbs : v'.oldDbs (sqid * 2) = v.oldDbs (sqid * 2)

theorem SameQueue.refl (sqid : Nat) (v : NvmevDev) : SameQueue sqid v v := ⟨rfl, rfl, rfl⟩

theorem SameQueue.trans {v₁ v₂ v₃ : NvmevDev} (h : SameQueue sqid v₁ v₂) (h' : SameQueue sqid v₂ v₃) :
    SameQueue sqid v₁ v₃ :=
  ⟨h'.ring.trans h.ring, h'.dbs.trans h.dbs, h'.oldDbs.trans h.oldDbs⟩

/-- The slots accepted in the turn of queue `sqid`. -/
def sqAccepted (proc : ProcIoCmd σ) (wall now : Nat → Nat → Nat) (sqid : Nat) (v : Device σ) : List Nat :=
  match v.adm.sqes sqid with
  | none => []
  | some sq =>
    let newDb := v.adm.dbs (sqid * 2)
    let oldDb := v.adm.oldDbs (sqid * 2)
    if newDb = oldDb then []
    else acceptedSlots proc sqid sq.queueSize (wall sqid) (now sqid) (walk sq.queueSize oldDb newDb) 0
      oldDb v.dispatcher

theorem procDbsSq_other {wall now : Nat → Nat → Nat} {qid : Nat} {v v' : Device σ} (hne : sqid ≠ qid)
    (h : procDbsSq proc wall now qid v = .ok v') : SameQueue sqid v.adm v'.adm := by
  unfold procDbsSq at h
  cases hsq : v.adm.sqes qid with
  | none =>
    rw [hsq] at h
    cases h
    exact .refl sqid _
  | some sq =>
    rw [hsq] at h
    dsimp only at h
    split at h
    · cases h
      exact .refl sqid _
    · obtain ⟨⟨d, latest⟩, hio, h⟩ := bind_eq_ok.mp h
      cases h
      refine ⟨?_, rfl, ?_⟩
      · exact congrArg _ (nvmevProcIoSq_others hio hne)
      · exact Function.update_of_ne (by omega) _ _

/-- The queue between two calls: `a` commands have been taken since it was created. -/
structure QueueAt (n a : Nat) (sqid : Nat) (v : NvmevDev) : Prop where
  queue : ∃ sq, v.sqes sqid = some sq ∧ sq.queueSize = n ∧ sq.stat.nrDispatched = u32 a
  oldDb : v.oldDbs (sqid * 2) = a % n

theorem QueueAt.same {n a : Nat} {v v' : NvmevDev} (k : QueueAt n a sqid v) (h : SameQueue sqid v v') :
    QueueAt n a sqid v' := by
  obtain ⟨sq, hsq, hsize, hnr⟩ := k.queue
  have hring := h.ring
  rw [hsq] at hring
  cases hsq' : v'.sqes sqid with
  | none =>
    rw [hsq'] at hring
    cases hring
  | some sq' =>
    rw [hsq'] at hring
    obtain ⟨hsize', hnr'⟩ := Prod.mk.inj (Option.some.inj hring)
    exact ⟨⟨sq', hsq', hsize'.trans hsize, hnr'.trans hnr⟩, h.oldDbs.trans k.oldDb⟩

/-- The turn of the queue itself: what it accepts is what follows in the ring. -/
theorem procDbsSq_self {wall now : Nat → Nat → Nat} {n a : Nat} {v v' : Device σ} (hn : 0 < n)
    (k : QueueAt n a sqid v.adm) (h : procDbsSq proc wall now sqid v = .ok v') :
    ∃ s, s ≤ walk n (a % n) (v.adm.dbs (sqid * 2)) ∧ QueueAt n (a + s) sqid v'.adm ∧
      v'.adm.dbs (sqid * 2) = v.adm.dbs (sqid * 2) ∧
      sqAccepted proc wall now sqid v = (List.range s).map fun i => (a + i) % n := by
  obtain ⟨sq, hsq, rfl, hnr⟩ := k.queue
  unfold procDbsSq at h
  unfold sqAccepted
  rw [hsq] at h ⊢
  dsimp only at h ⊢
  split at h
  · rename_i heq
    cases h
    rw [if_pos heq]
    exact ⟨0, Nat.zero_le _, k, rfl, rfl⟩
  · rename_i hne
    rw [if_neg hne]
    obtain ⟨⟨d, latest⟩, hio, h⟩ := bind_eq_ok.mp h
    cases h
    have hlt : v.adm.oldDbs (sqid * 2) < sq.queueSize := by
      rw [k.oldDb]
      exact Nat.mod_lt _ hn
    obtain ⟨s, hs, hlatest, ⟨sq', hsq', hsize, hnr'⟩, hslots⟩ :=
      nvmevProcIoSq_taken (d := v.dispatcher) hsq hlt hio
    rw [k.oldDb] at hs hlatest hslots hne
    refine ⟨s, hs, ⟨⟨sq', hsq', hsize, hnr' a hnr⟩, ?_⟩, rfl, ?_⟩
    · refine (Function.update_self _ _ _).trans ?_
      rw [hlatest, Nat.mod_add_mod]
    · rw [k.oldDb, hslots]
      exact List.map_congr_left fun i _ => Nat.mod_add_mod a sq.queueSize i

theorem procDbsSqs_before {wall now : Nat → Nat → Nat} {m : Nat} (hm : m < sqid) {v v' : Device σ}
    (h : procDbsSqs proc wall now m v = .ok v') : SameQueue sqid v.adm v'.adm := by
  induction m generalizing v' with
  | zero =>
    cases h
    exact .refl sqid _
  | succ m ih =>
    obtain ⟨v₁, h₁, h⟩ := bind_eq_ok.mp h
    exact (ih (by omega) h₁).trans (procDbsSq_other (by omega) h)

/-- The slots of queue `sqid` accepted in the loop over the submission queues. -/
def sqsAccepted (proc : ProcIoCmd σ) (wall now : Nat → Nat → Nat) (sqid m : Nat) (v : Device σ) : List Nat :=
  if 1 ≤ sqid ∧ sqid ≤ m then
    match procDbsSqs proc wall now (sqid - 1) v with
    | .error _ => []
    | .ok v => sqAccepted proc wall now sqid v
  else []

theorem procDbsSqs_taken {wall now : Nat → Nat → Nat} {n a m : Nat} (hn : 0 < n) {v v' : Device σ}
    (k : QueueAt n a sqid v.adm) (h : procDbsSqs proc wall now m v = .ok v') :
    ∃ s, s ≤ walk n (a % n) (v.adm.dbs (sqid * 2)) ∧ QueueAt n (a + s) sqid v'.adm ∧
      v'.adm.dbs (sqid * 2) = v.adm.dbs (sqid * 2) ∧
      sqsAccepted proc wall now sqid m v = (List.range s).map fun i => (a + i) % n := by
  rcases Nat.lt_or_ge m sqid with hlt | hge
  · have hsame := procDbsSqs_before hlt h
    refine ⟨0, Nat.zero_le _, k.same hsame, hsame.dbs, ?_⟩
    exact if_neg (by omega)
  · rcases Nat.eq_zero_or_pos sqid with rfl | hpos
    · -- queue 0 has no turn
      have hsame : SameQueue 0 v.adm v'.adm := by
        clear hge
        induction m generalizing v' with
        | zero =>
          cases h
          exact .refl 0 _
        | succ m ih =>
          obtain ⟨v₁, h₁, h⟩ := bind_eq_ok.mp h
          exact (ih h₁).trans (procDbsSq_other (by omega) h)
      refine ⟨0, Nat.zero_le _, k.same hsame, hsame.dbs, ?_⟩
      exact if_neg (by omega)
    · unfold sqsAccepted
      rw [if_pos ⟨hpos, hge⟩]
      obtain ⟨q, rfl⟩ : ∃ q, sqid = q + 1 := ⟨sqid - 1, by omega⟩
      rw [Nat.add_sub_cancel]
      induction m generalizing v' with
      | zero => omega
      | succ m ih =>
        obtain ⟨v₁, h₁, h⟩ := bind_eq_ok.mp h
        rcases Nat.lt_or_ge q m with hlt | hge'
        · obtain ⟨s, hs, hk, hdbs, hslots⟩ := ih h₁ hlt
          have hsame := procDbsSq_other (show q + 1 ≠ m + 1 by omega) h
          exact ⟨s, hs, hk.same hsame, hsame.dbs.trans hdbs, hslots⟩
        · obtain rfl : m = q := by omega
          have hsame := procDbsSqs_before (Nat.lt_succ_self m) h₁
          obtain ⟨s, hs, hk, hdbs, hslots⟩ := procDbsSq_self hn (k.same hsame) h
          rw [hsame.dbs] at hs hdbs
          have h₁' : procDbsSqs proc wall now m v = .ok v₁ := h₁
          refine ⟨s, hs, hk, hdbs, ?_⟩
          rw [h₁']
          exact hslots

theorem finished_ring (sq : SubmissionQueue) : sq.finished.ring = sq.ring := rfl

theorem finishOne_same {v v' : NvmevDev} {id : Nat} (h : finishOne id v = .ok v') (sqid : Nat) :
    SameQueue sqid v v' := by
  obtain ⟨i, -, h⟩ := bind_eq_ok.mp h
  cases h
  refine ⟨?_, rfl, rfl⟩
  by_cases hi : sqid = i
  · subst hi
    simp only [Function.update_self, Option.map_map, Function.comp_def, finished_ring]
  · simp only [Function.update_of_ne hi]

theorem procIoCqLoop_same {cq : CompletionQueue} {newDb fuel i : Nat} {v v' : NvmevDev}
    (h : procIoCqLoop cq newDb fuel i v = .ok v') (sqid : Nat) : SameQueue sqid v v' := by
  induction fuel generalizing i v with
  | zero => cases h
  | succ fuel ih =>
    rw [procIoCqLoop] at h
    split at h
    · cases h
      exact .refl sqid _
    · obtain ⟨cqe, -, h⟩ := bind_eq_ok.mp h
      split at h
      · exact ih h
      · obtain ⟨v₁, h₁, h⟩ := bind_eq_ok.mp h
        exact (finishOne_same h₁ sqid).trans (ih h)

theorem procDbsCq_same {qid : Nat} {v v' : Device σ} (h : procDbsCq qid v = .ok v') (sqid : Nat) :
    SameQueue sqid v.adm v'.adm := by
  unfold procDbsCq at h
  cases hcq : v.adm.cqes qid with
  | none =>
    rw [hcq] at h
    cases h
    exact .refl sqid _
  | some cq =>
    rw [hcq] at h
    dsimp only at h
    split at h
    · cases h
      exact .refl sqid _
    · obtain ⟨adm, hadm, h⟩ := bind_eq_ok.mp h
      cases h
      unfold nvmevProcIoCq at hadm
      rw [hcq] at hadm
      have hsame := procIoCqLoop_same hadm sqid
      exact ⟨hsame.ring, hsame.dbs, (Function.update_of_ne (by omega) _ _).trans hsame.oldDbs⟩

theorem procDbsCqs_same {m : Nat} {v v' : Device σ} (h : procDbsCqs m v = .ok v') (sqid : Nat) :
    SameQueue sqid v.adm v'.adm := by
  induction m generalizing v' with
  | zero =>
    cases h
    exact .refl sqid _
  | succ m ih =>
    obtain ⟨v₁, h₁, h⟩ := bind_eq_ok.mp h
    exact (ih h₁).trans (procDbsCq_same h sqid)

/-- The slots of queue `sqid` whose commands a call of `nvmev_proc_dbs` gets accepted. -/
def dbsAccepted (proc : ProcIoCmd σ) (wall now : Nat → Nat → Nat) (sqid : Nat) (v : Device σ) : List Nat :=
  match procDbsAdmin v.adm with
  | .error _ => []
  | .ok adm => sqsAccepted proc wall now sqid adm.nrSq { v with adm := adm }

/-- No admin command of the call creates or deletes the queue. -/
def LeavesQueue (sqid : Nat) (v : NvmevDev) : Prop := ∀ v', procDbsAdmin v = .ok v' → SameQueue sqid v v'

/-- Without a new admin doorbell a call leaves every queue. -/
theorem leavesQueue_quiet {v : NvmevDev} (h : v.dbs 0 = v.oldDbs 0) : LeavesQueue sqid v := by
  intro v' hv'
  unfold procDbsAdmin procDbsAdminSq at hv'
  rw [if_pos h] at hv'
  cases hv'
  exact ⟨rfl, rfl, v.setOldDb_other _ (by omega)⟩

theorem nvmevProcDbs_taken {wall now : Nat → Nat → Nat} {n a : Nat} (hn : 0 < n) {v v' : Device σ}
    (k : QueueAt n a sqid v.adm) (hkeep : LeavesQueue sqid v.adm) (h : nvmevProcDbs proc wall now v = .ok v') :
    ∃ s, s ≤ walk n (a % n) (v.adm.dbs (sqid * 2)) ∧ QueueAt n (a + s) sqid v'.adm ∧
      v'.adm.dbs (sqid * 2) = v.adm.dbs (sqid * 2) ∧
      dbsAccepted proc wall now sqid v = (List.range s).map fun i => (a + i) % n := by
  obtain ⟨adm, hadm, h⟩ := bind_eq_ok.mp h
  obtain ⟨v₁, hsqs, h⟩ := bind_eq_ok.mp h
  have hfirst := hkeep adm hadm
  obtain ⟨s, hs, hk, hdbs, hslots⟩ := procDbsSqs_taken (v := { v with adm := adm }) hn (k.same hfirst) hsqs
  have hlast := procDbsCqs_same h sqid
  dsimp only at hs hdbs
  rw [hfirst.dbs] at hs hdbs
  refine ⟨s, hs, hk.same hlast, hlast.dbs.trans hdbs, ?_⟩
  unfold dbsAccepted
  rw [hadm]
  exact hslots

/-- The slots accepted so far, how far the tail has been moved in all, and whether it has ever
been moved past the entries the ring can hold. -/
structure SubLog where
  accepted : List Nat
  submitted : Nat
  overrun : Bool

def SubLog.start : SubLog := ⟨[], 0, false⟩

/-- The host moves the tail doorbell from `db` to `d`. -/
def SubLog.ring (log : SubLog) (n db d : Nat) : SubLog :=
  { log with
    submitted := log.submitted + walk n db d
    overrun := log.overrun || decide (log.accepted.length + n ≤ log.submitted + walk n db d) }

def SubLog.accept (log : SubLog) (slots : List Nat) : SubLog :=
  { log with accepted := log.accepted ++ slots }

def Device.setDb (v : Device σ) (dbsIdx value : Nat) : Device σ :=
  { v with adm := { v.adm with dbs := Function.update v.adm.dbs dbsIdx value } }

/-- Doorbell writes, calls of `nvmev_proc_dbs` and anything else that leaves the queue, in any
order, from the creation of the queue on. -/
inductive SubRun (proc : ProcIoCmd σ) (sqid n : Nat) (v₀ : Device σ) : SubLog → Device σ → Prop where
  | start : SubRun proc sqid n v₀ SubLog.start v₀
  | ring {log : SubLog} {v : Device σ} {d : Nat} : SubRun proc sqid n v₀ log v → d < n →
    SubRun proc sqid n v₀ (log.ring n (v.adm.dbs (sqid * 2)) d) (v.setDb (sqid * 2) d)
  | call {log : SubLog} {v v' : Device σ} {wall now : Nat → Nat → Nat} :
    SubRun proc sqid n v₀ log v → LeavesQueue sqid v.adm → nvmevProcDbs proc wall now v = .ok v' →
    SubRun proc sqid n v₀ (log.accept (dbsAccepted proc wall now sqid v)) v'
  | other {log : SubLog} {v v' : Device σ} : SubRun proc sqid n v₀ log v →
    SameQueue sqid v.adm v'.adm → SubRun proc sqid n v₀ log v'

/-- The queue after `log`. -/
structure SubInv (sqid n : Nat) (log : SubLog) (v : Device σ) : Prop where
  queue : QueueAt n log.accepted.length sqid v.adm
  accepted : log.accepted = (List.range log.accepted.length).map (· % n)
  db : v.adm.dbs (sqid * 2) < n
  total : log.overrun = false →
    log.accepted.length + walk n (log.accepted.length % n) (v.adm.dbs (sqid * 2)) = log.submitted

variable {n : Nat} {log : SubLog} {v v' : Device σ}

theorem SubInv.ring (hn : 0 < n) (inv : SubInv sqid n log v) {d : Nat} (hd : d < n) :
    SubInv sqid n (log.ring n (v.adm.dbs (sqid * 2)) d) (v.setDb (sqid * 2) d) where
  queue := ⟨inv.queue.queue, inv.queue.oldDb⟩
  accepted := inv.accepted
  db := by
    change Function.update v.adm.dbs (sqid * 2) d (sqid * 2) < n
    rw [Function.update_self]
    exact hd
  total hover := by
    obtain ⟨hover, hfits⟩ := Bool.or_eq_false_iff.mp hover
    have hfits := of_decide_eq_false hfits
    have htotal := inv.total hover
    change _ + walk n _ (Function.update v.adm.dbs (sqid * 2) d (sqid * 2)) = _
    rw [Function.update_self]
    change log.accepted.length + walk n (log.accepted.length % n) d =
      log.submitted + walk n (v.adm.dbs (sqid * 2)) d
    -- the old and the new doorbell are the slots of the old and the new total
    have hold := add_walk_mod (Nat.mod_lt log.accepted.length hn) inv.db
    rw [Nat.mod_add_mod, htotal] at hold
    have hnew := add_walk_mod inv.db hd
    rw [← hold, Nat.mod_add_mod, hold] at hnew
    have hwalk := walk_mod hn log.accepted.length
      (log.submitted + walk n (v.adm.dbs (sqid * 2)) d - log.accepted.length) (by omega)
    rw [show log.accepted.length + (log.submitted + walk n (v.adm.dbs (sqid * 2)) d -
      log.accepted.length) = log.submitted + walk n (v.adm.dbs (sqid * 2)) d by omega, hnew] at hwalk
    rw [hwalk]
    omega

theorem SubInv.accept (hn : 0 < n) (inv : SubInv sqid n log v) {s : Nat}
    (hs : s ≤ walk n (log.accepted.length % n) (v.adm.dbs (sqid * 2)))
    (hqueue : QueueAt n (log.accepted.length + s) sqid v'.adm)
    (hdbs : v'.adm.dbs (sqid * 2) = v.adm.dbs (sqid * 2)) :
    SubInv sqid n (log.accept ((List.range s).map fun i => (log.accepted.length + i) % n)) v' := by
  have hlen : (log.accept ((List.range s).map fun i => (log.accepted.length + i) % n)).accepted.length =
      log.accepted.length + s := by
    simp [SubLog.accept]
  refine ⟨by rw [hlen]; exact hqueue, ?_, by rw [hdbs]; exact inv.db, ?_⟩
  · rw [hlen, List.range_add, List.map_append, List.map_map, ← inv.accepted]
    rfl
  · intro hover
    rw [hlen, hdbs, walk_advance hn _ inv.db hs]
    have := inv.total hover
    change _ = log.submitted
    omega

theorem SubRun.inv (hn : 0 < n) {v₀ : Device σ} (hqueue : QueueAt n 0 sqid v₀.adm)
    (hdb : v₀.adm.dbs (sqid * 2) = 0) (h : SubRun proc sqid n v₀ log v) : SubInv sqid n log v := by
  induction h with
  | start =>
    refine ⟨hqueue, rfl, by rw [hdb]; exact hn, fun _ => ?_⟩
    rw [hdb]
    exact (congrArg (walk n · 0) (Nat.zero_mod n)).trans (walk_self 0)
  | ring _ hd ih => exact ih.ring hn hd
  | call _ hkeep hcall ih =>
    obtain ⟨s, hs, hk, hdbs, hslots⟩ := nvmevProcDbs_taken hn ih.queue hkeep hcall
    rw [hslots]
    exact ih.accept hn hs hk hdbs
  | other _ hsame ih =>
    refine ⟨ih.queue.same hsame, ih.accepted, by rw [hsame.dbs]; exact ih.db, fun hover => ?_⟩
    rw [hsame.dbs]
    exact ih.total hover

/-- From the creation of a submission queue on, whatever the doorbell does and whatever is refused:
the commands accepted are those of the slots in ring order, `old_dbs` is the slot behind the last of
them, `nr_dispatched` is their number, and as long as the host keeps within the ring, what it has
submitted is what has been accepted and what lies between `old_dbs` and the doorbell. -/
theorem accepted_in_ring_order {adm : NvmevDev} {eid : Nat} {cmd : NvmeAdminCommand} {v₀ : Device σ}
    (hcmd : adm.sqEntry eid = .ok cmd) (hcreate : adminCreateSq eid adm = .ok v₀.adm)
    (h : SubRun proc cmd.qid (cmd.qsize + 1) v₀ log v) :
    log.accepted = (List.range log.accepted.length).map (· % (cmd.qsize + 1)) ∧
    v.adm.oldDbs (cmd.qid * 2) = log.accepted.length % (cmd.qsize + 1) ∧
    (∃ sq, v.adm.sqes cmd.qid = some sq ∧ sq.stat.nrDispatched = u32 log.accepted.length) ∧
    (log.overrun = false → log.accepted.length +
      walk (cmd.qsize + 1) (v.adm.oldDbs (cmd.qid * 2)) (v.adm.dbs (cmd.qid * 2)) = log.submitted) := by
  obtain ⟨hsq, hdbs, hold⟩ := adminCreateSq_created hcmd hcreate
  have inv := h.inv (Nat.succ_pos _) ⟨⟨_, hsq, rfl, rfl⟩, hold.trans (Nat.zero_mod _).symm⟩ hdbs
  obtain ⟨sq, hsq', -, hnr⟩ := inv.queue.queue
  refine ⟨inv.accepted, inv.queue.oldDb, ⟨sq, hsq', hnr⟩, fun hover => ?_⟩
  rw [inv.queue.oldDb]
  exact inv.total hover

/-- Create submission queue 1 with two entries, completing to queue 1. -/
def createSq1 : NvmeAdminCommand := ⟨0x01, 4, 0, 0x5000, 0x10001, 0x10000⟩

def createSq1Dev : NvmevDev := { adminDev adminQueue2 createSq1 with nrSq := 1 }

/-- A handler that counts its calls and refuses the second. -/
def refuseSecond : ProcIoCmd Nat := fun _ calls cmd _ _ ret => .ok ⟨calls != 1, calls + 1, cmd, ret, []⟩

/-- The tail doorbell of queue 1 is written, and `nvmev_proc_dbs` called. -/
def doorbellCall (tail : Nat) (v : Device Nat) : Except Fault (Device Nat) :=
  nvmevProcDbs refuseSecond (fun _ _ => 0) (fun _ _ => 0) (v.setDb 2 tail)

def doorbellLog (tail : Nat) (log : SubLog) (v : Device Nat) : SubLog :=
  (log.ring 2 (v.adm.dbs 2) tail).accept
    (dbsAccepted refuseSecond (fun _ _ => 0) (fun _ _ => 0) 1 (v.setDb 2 tail))

theorem SubRun.doorbellCall {v₀ v v' : Device Nat} (h : SubRun refuseSecond 1 2 v₀ log v) {tail : Nat}
    (htail : tail < 2) (hquiet : v.adm.dbs 0 = v.adm.oldDbs 0)
    (hcall : NVMeVirt.doorbellCall tail v = .ok v') :
    SubRun refuseSecond 1 2 v₀ (doorbellLog tail log v) v' := by
  refine (h.ring htail).call (leavesQueue_quiet ?_) hcall
  change Function.update v.adm.dbs (1 * 2) tail 0 = v.adm.oldDbs 0
  rw [Function.update_of_ne (by decide)]
  exact hquiet

/-- Three submissions through a ring of two: the second command is refused, and accepted when the
next call tries again. -/
theorem accepted_in_ring_order_one : ∃ (v₀ v : Device Nat) (log : SubLog),
    adminCreateSq 0 createSq1Dev = .ok v₀.adm ∧ SubRun refuseSecond 1 2 v₀ log v ∧
    v.ftl = 4 ∧ log.accepted = [0, 1, 0] ∧ v.adm.oldDbs 2 = 1 ∧
      log.accepted.length + walk 2 (v.adm.oldDbs 2) (v.adm.dbs 2) = 3 := by
  obtain ⟨⟨v₀, v₁, v₂, v₃, v₄⟩, hrun, hp⟩ := exists_of_check (show check
      (fun (r : Device Nat × Device Nat × Device Nat × Device Nat × Device Nat) =>
        let log := doorbellLog 1 (doorbellLog 0 (doorbellLog 0 (doorbellLog 1 .start r.1) r.2.1) r.2.2.1)
          r.2.2.2.1
        decide (log.accepted = [0, 1, 0] ∧ log.submitted = 3 ∧ log.overrun = false) &&
        decide (r.1.adm.dbs 0 = r.1.adm.oldDbs 0 ∧ r.2.1.adm.dbs 0 = r.2.1.adm.oldDbs 0 ∧
          r.2.2.1.adm.dbs 0 = r.2.2.1.adm.oldDbs 0 ∧ r.2.2.2.1.adm.dbs 0 = r.2.2.2.1.adm.oldDbs 0) &&
        decide (r.2.2.2.2.ftl = 4)) (do
      let adm ← adminCreateSq 0 createSq1Dev
      let v₁ ← doorbellCall 1 ⟨adm, nvmevIoWorkerInit 1, 0⟩
      let v₂ ← doorbellCall 0 v₁
      let v₃ ← doorbellCall 0 v₂
      let v₄ ← doorbellCall 1 v₃
      return (⟨adm, nvmevIoWorkerInit 1, 0⟩, v₁, v₂, v₃, v₄)) = true by decide +kernel)
  obtain ⟨adm, hcreate, hrun⟩ := bind_eq_ok.mp hrun
  obtain ⟨_, h₁, hrun⟩ := bind_eq_ok.mp hrun
  obtain ⟨_, h₂, hrun⟩ := bind_eq_ok.mp hrun
  obtain ⟨_, h₃, hrun⟩ := bind_eq_ok.mp hrun
  obtain ⟨_, h₄, hrun⟩ := bind_eq_ok.mp hrun
  cases hrun
  simp only [Bool.and_eq_true, decide_eq_true_eq] at hp
  obtain ⟨⟨⟨hacc, hsub, hover⟩, hq₀, hq₁, hq₂, hq₃⟩, hcalls⟩ := hp
  have hstart : SubRun refuseSecond 1 2 (⟨adm, nvmevIoWorkerInit 1, 0⟩ : Device Nat) .start _ := .start
  have h := (((hstart.doorbellCall (by decide) hq₀ h₁).doorbellCall (by decide) hq₁ h₂).doorbellCall
    (by decide) hq₂ h₃).doorbellCall (by decide) hq₃ h₄
  obtain ⟨-, hold, -, htotal⟩ := @accepted_in_ring_order _ _ _ _ _ 0 createSq1 _ rfl hcreate h
  rw [hacc] at hold
  exact ⟨_, _, _, hcreate, h, hcalls, hacc, hold, (htotal hover).trans hsub⟩

end NVMeVirt
