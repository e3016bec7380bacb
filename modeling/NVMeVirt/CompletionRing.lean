import NVMeVirt.AdminCompletions

/-!
# The completion ring

Completions posted one at a time by `__fill_cq_result`, and a host that takes the entry at its
slot while the phase of the entry is the one it expects.
-/

namespace NVMeVirt
set_option autoImplicit false
open Outcome Ring

def NvmeCompletion.phase (cqe : NvmeCompletion) : Bool := cqe.status % 2 = 1

/-- The host's end of the ring, with what it has taken so far. -/
structure HostCq where
  cursor : Cursor
  taken : List NvmeCompletion

def HostCq.start : HostCq := ⟨Ring.start, []⟩

/-- The host looks at its slot once. -/
def HostCq.poll (host : HostCq) (cq : CompletionQueue) : HostCq :=
  let cqe := cq.cq host.cursor.slot
  if cqe.phase = host.cursor.phase then ⟨host.cursor.next cq.queueSize, host.taken ++ [cqe]⟩ else host

/-- Completions posted and looked for in any order, never more than the ring holds at a time. -/
inductive RingRun (cq₀ : CompletionQueue) : List IoWork → CompletionQueue → HostCq → Prop where
  | start : RingRun cq₀ [] cq₀ HostCq.start
  | post {posted : List IoWork} {cq : CompletionQueue} {host : HostCq} (w : IoWork) :
    RingRun cq₀ posted cq host → posted.length < host.taken.length + cq.queueSize →
    RingRun cq₀ (posted ++ [w]) (fillCqResult cq w) host
  | poll {posted : List IoWork} {cq : CompletionQueue} {host : HostCq} :
    RingRun cq₀ posted cq host → RingRun cq₀ posted cq (host.poll cq)

theorem completionOf_phase (phase : Bool) (w : IoWork) : (completionOf phase w).phase = phase := by
  unfold NvmeCompletion.phase completionOf
  rw [status_phase]
  cases phase with
  | false => rfl
  | true => rfl

/-- The entries written for `posted` on a ring of `n` slots. -/
def entries (n : Nat) (posted : List IoWork) : List NvmeCompletion :=
  posted.mapIdx fun k w => completionOf (phaseAt n k) w

@[simp] theorem entries_length (n : Nat) (posted : List IoWork) :
    (entries n posted).length = posted.length := List.length_mapIdx

theorem entries_push (n : Nat) (posted : List IoWork) (w : IoWork) :
    entries n (posted ++ [w]) = entries n posted ++ [completionOf (phaseAt n posted.length) w] := by
  simp [entries]

theorem entries_phase (n : Nat) (posted : List IoWork) {k : Nat} (hk : k < (entries n posted).length) :
    (entries n posted)[k].phase = phaseAt n k := by
  simp [entries, completionOf_phase]

def CompletionQueue.cursor (cq : CompletionQueue) : Cursor := ⟨cq.cqHead, cq.phase⟩

theorem fillCqResult_cursor (cq : CompletionQueue) (w : IoWork) :
    (fillCqResult cq w).cursor = cq.cursor.next cq.queueSize := by
  unfold fillCqResult CompletionQueue.cursor Cursor.next
  by_cases h : cq.cqHead + 1 = cq.queueSize
  · simp [h]
  · simp [h]

/-- Producer and host stand where the numbers of posted and taken entries put them. -/
structure RingInv (cq₀ : CompletionQueue) (posted : List IoWork) (cq : CompletionQueue) (host : HostCq) :
    Prop where
  size : cq.queueSize = cq₀.queueSize
  cursor : cq.cursor = Ring.start.after cq.queueSize posted.length
  cells : Latest cq.queueSize 0 cq₀.cq cq.cq (entries cq.queueSize posted)
  hostCursor : host.cursor = Ring.start.after cq.queueSize host.taken.length
  taken : host.taken = (entries cq.queueSize posted).take host.taken.length
  behind : host.taken.length ≤ posted.length
  room : posted.length ≤ host.taken.length + cq.queueSize

/-- A new queue over slots whose phase tags are zero. -/
structure FreshRing (cq : CompletionQueue) : Prop where
  pos : 0 < cq.queueSize
  cursor : cq.cursor = Ring.start
  blank : ∀ i < cq.queueSize, (cq.cq i).phase = false

variable {cq₀ cq : CompletionQueue} {posted : List IoWork} {host : HostCq}

theorem RingInv.start (k : FreshRing cq₀) : RingInv cq₀ [] cq₀ HostCq.start where
  size := rfl
  cursor := k.cursor.trans (Cursor.after_zero k.pos).symm
  cells := Latest.nil _ 0 cq₀.cq
  hostCursor := (Cursor.after_zero k.pos).symm
  taken := rfl
  behind := Nat.le_refl 0
  room := Nat.zero_le _

theorem RingInv.post (k : FreshRing cq₀) (inv : RingInv cq₀ posted cq host) (w : IoWork)
    (hroom : posted.length < host.taken.length + cq.queueSize) :
    RingInv cq₀ (posted ++ [w]) (fillCqResult cq w) host := by
  have hsize : (fillCqResult cq w).queueSize = cq.queueSize := rfl
  have hpos : 0 < cq.queueSize := inv.size ▸ k.pos
  have hcur := inv.cursor
  rw [start_after] at hcur
  have hslot : cq.cqHead = posted.length % cq.queueSize := congrArg Cursor.slot hcur
  have hphase : cq.phase = phaseAt cq.queueSize posted.length := congrArg Cursor.phase hcur
  refine ⟨inv.size, ?_, ?_, inv.hostCursor, ?_, ?_, ?_⟩
  · rw [fillCqResult_cursor, inv.cursor, Cursor.next_after hpos, hsize, List.length_append,
      List.length_singleton]
  · have hpush := inv.cells.push (completionOf cq.phase w)
    rw [entries_length, Nat.zero_add, ← hslot, hphase, ← entries_push] at hpush
    rw [hsize]
    unfold fillCqResult
    rw [hphase]
    exact hpush
  · rw [hsize, entries_push, List.take_append_of_le_length (by simpa using inv.behind)]
    exact inv.taken
  · rw [List.length_append]
    exact Nat.le_add_right_of_le inv.behind
  · rw [hsize, List.length_append, List.length_singleton]
    exact hroom

/-- The tag at the host's slot is the expected one exactly when something is left to take. -/
theorem RingInv.poll_iff (k : FreshRing cq₀) (inv : RingInv cq₀ posted cq host) :
    (cq.cq host.cursor.slot).phase = host.cursor.phase ↔ host.taken.length < posted.length := by
  have hpos : 0 < cq.queueSize := inv.size ▸ k.pos
  have h := @Latest.phase_iff _ _ hpos _ _ _ NvmeCompletion.phase inv.cells
    (by rw [inv.size]; exact k.blank) (fun j hj => entries_phase _ _ hj) host.taken.length
    (by simpa using inv.behind) (by simpa using inv.room)
  rw [inv.hostCursor, start_after]
  simpa using h

theorem RingInv.poll (k : FreshRing cq₀) (inv : RingInv cq₀ posted cq host) :
    RingInv cq₀ posted cq (host.poll cq) := by
  have hpos : 0 < cq.queueSize := inv.size ▸ k.pos
  have hiff := inv.poll_iff k
  unfold HostCq.poll
  dsimp only
  split
  · rename_i htag
    have hlt := hiff.mp htag
    have hlt' : host.taken.length < (entries cq.queueSize posted).length := by
      rw [entries_length]
      exact hlt
    have hcell : cq.cq host.cursor.slot = (entries cq.queueSize posted)[host.taken.length] := by
      have hslot := congrArg Cursor.slot inv.hostCursor
      rw [start_after] at hslot
      have hheld := inv.cells.held _ hlt' (by simpa using inv.room)
      rw [Nat.zero_add] at hheld
      rw [hslot]
      exact hheld
    refine ⟨inv.size, inv.cursor, inv.cells, ?_, ?_, ?_, ?_⟩
    · dsimp only
      rw [inv.hostCursor, Cursor.next_after hpos, List.length_append, List.length_singleton]
    · dsimp only
      rw [List.length_append, List.length_singleton, hcell,
        List.take_succ_eq_append_getElem hlt', ← inv.taken]
    · rw [List.length_append, List.length_singleton]
      exact hlt
    · have := inv.room
      simp only [List.length_append, List.length_singleton]
      omega
  · exact inv

theorem RingRun.inv (k : FreshRing cq₀) (h : RingRun cq₀ posted cq host) : RingInv cq₀ posted cq host := by
  induction h with
  | start => exact .start k
  | post w _ hroom ih => exact ih.post k w hroom
  | poll _ ih => exact ih.poll k

/-- Command id, submission queue id and status of an entry. -/
def NvmeCompletion.report (cqe : NvmeCompletion) : Nat × Nat × Nat :=
  (cqe.commandId, cqe.sqId, cqe.status / 2)

/-- The same of a work, in the widths of the entry. -/
def IoWork.report (w : IoWork) : Nat × Nat × Nat := (w.commandId % 2^16, w.sqid % 2^16, w.status % 2^15)

/-- Ids of 16 bits and a status of 15 bits. -/
def IoWork.Fits (w : IoWork) : Prop := w.commandId < 2^16 ∧ w.sqid < 2^16 ∧ w.status < 2^15

theorem IoWork.Fits.report {w : IoWork} (h : w.Fits) : w.report = (w.commandId, w.sqid, w.status) := by
  unfold IoWork.report
  rw [Nat.mod_eq_of_lt h.1, Nat.mod_eq_of_lt h.2.1, Nat.mod_eq_of_lt h.2.2]

theorem completionOf_report (phase : Bool) (w : IoWork) : (completionOf phase w).report = w.report := by
  unfold NvmeCompletion.report IoWork.report completionOf
  have hbit : phase.toNat < 2 := Bool.toNat_lt phase
  have hstatus : (phase.toNat + w.status * 2) % 2^16 / 2 = w.status % 2^15 := by omega
  rw [hstatus]

theorem entries_report (n : Nat) (posted : List IoWork) :
    (entries n posted).map NvmeCompletion.report = posted.map IoWork.report := by
  refine List.ext_getElem (by simp) ?_
  intro i h₁ h₂
  simp [entries, completionOf_report]

theorem HostCq.poll_ne (host : HostCq) (cq : CompletionQueue) :
    host.poll cq ≠ host ↔ (cq.cq host.cursor.slot).phase = host.cursor.phase := by
  unfold poll
  dsimp only
  split
  · rename_i h
    refine ⟨fun _ => h, fun _ heq => ?_⟩
    have hlen := congrArg (fun h : HostCq => h.taken.length) heq
    simp at hlen
  · rename_i h
    exact ⟨fun hne => absurd rfl hne, fun h' => absurd h' h⟩

def zeroCompletion : NvmeCompletion := ⟨0, 0, 0, 0, 0, 0⟩

theorem createdCq_fresh {qsize : Nat} {slots : Nat → NvmeCompletion}
    (hzero : ∀ i ≤ qsize, slots i = zeroCompletion) : FreshRing (createdCq qsize slots) where
  pos := Nat.succ_pos qsize
  cursor := rfl
  blank i hi := by
    have h : (createdCq qsize slots).cq i = zeroCompletion := hzero i (Nat.le_of_lt_succ hi)
    rw [h]
    rfl

/-- On a completion queue created over zeroed slots, with never more than `queue_size` entries
left to take, the host has taken the entries posted first, in their order, each with the ids and
the status of its work; and it finds one to take exactly while some are left. -/
theorem host_takes_posted {v v' : NvmevDev} {eid : Nat} {cmd : NvmeAdminCommand}
    {cq₀ cq : CompletionQueue} {posted : List IoWork} {host : HostCq}
    (hcmd : v.sqEntry eid = .ok cmd) (hcreate : adminCreateCq eid v = .ok v')
    (hcq : v'.cqes cmd.qid = some cq₀) (hzero : ∀ i ≤ cmd.qsize, v.mem.ioCq cmd.prp1 i = zeroCompletion)
    (h : RingRun cq₀ posted cq host) :
    host.taken.map NvmeCompletion.report = (posted.take host.taken.length).map IoWork.report ∧
    ((∀ w ∈ posted, w.Fits) → host.taken.map NvmeCompletion.report =
      (posted.take host.taken.length).map fun w => (w.commandId, w.sqid, w.status)) ∧
    host.taken.length ≤ posted.length ∧
    (host.poll cq ≠ host ↔ host.taken.length < posted.length) := by
  obtain rfl := Option.some.inj ((adminCreateCq_created hcmd hcreate).symm.trans hcq)
  have k := createdCq_fresh hzero
  have inv := h.inv k
  have hreport : host.taken.map NvmeCompletion.report =
      (posted.take host.taken.length).map IoWork.report := by
    conv_lhs => rw [inv.taken, List.map_take, entries_report, ← List.map_take]
  refine ⟨hreport, ?_, inv.behind, ?_⟩
  · intro hfits
    rw [hreport]
    refine List.map_congr_left ?_
    intro w hw
    exact (hfits w (List.mem_of_mem_take hw)).report
  · rw [HostCq.poll_ne]
    exact inv.poll_iff k

/-- Create completion queue 1 with two entries. -/
def createCq1 : NvmeAdminCommand := ⟨0x05, 3, 0, 0x4000, 0x10001, 0⟩

def ioWork (commandId : Nat) : IoWork :=
  { sqid := 1, cqid := 1, sqEntry := 0, commandId := commandId, nsecsStart := 0, nsecsTarget := 0,
    nsecsEnqueue := 0, isCopied := true, isCompleted := false, status := 0, result0 := 0, result1 := 0,
    isInternal := false, writeBuffer := 0, buffsToRelease := 0, next := 0, prev := 0 }

/-- Two completions fill the ring, one is taken, a third one wraps, the others are taken. -/
theorem host_takes_three : ∃ cq host, RingRun (createdCq 1 fun _ => zeroCompletion)
      [ioWork 7, ioWork 8, ioWork 9] cq host ∧
    host.taken.map NvmeCompletion.report = [(7, 1, 0), (8, 1, 0), (9, 1, 0)] := by
  have hcreate : ∃ v', adminCreateCq 0 (adminDev adminQueue2 createCq1) = .ok v' := ⟨_, rfl⟩
  obtain ⟨v', hv'⟩ := hcreate
  have hstart : RingRun (createdCq 1 fun _ => zeroCompletion) [] _ _ := .start
  have h := hstart
    |>.post (ioWork 7) (by decide) |>.post (ioWork 8) (by decide) |>.poll
    |>.post (ioWork 9) (by decide) |>.poll |>.poll
  refine ⟨_, _, h, ?_⟩
  exact (@host_takes_posted (adminDev adminQueue2 createCq1) v' 0 createCq1 _ _ _ _ rfl hv'
    (adminCreateCq_created rfl hv') (fun _ _ => rfl) h).1

end NVMeVirt
