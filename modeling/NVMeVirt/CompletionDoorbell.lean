import NVMeVirt.AdminCompletions
import NVMeVirt.Doorbells

/-!
# The head doorbell of a completion queue

`nvmev_proc_io_cq` walks from the old head to the new one and takes every completion that it
passes off its submission queue. The walk turns round at the end of the ring only after it
has read one entry too many.
-/

namespace NVMeVirt
set_option autoImplicit false
open Outcome Ring

/-- `procIoCqLoop` with the indices of the entries that it reads. -/
def procIoCqLoopLogged (cq : CompletionQueue) (newDb : Nat) :
    Nat → Nat → NvmevDev → Except Fault (NvmevDev × List Nat)
  | 0, _, _ => .error .outOfFuel
  | fuel + 1, i, v =>
    if i = newDb then .ok (v, [])
    else do
      let cqe ← cqEntry cq i
      if cq.queueSize ≤ i then
        let r ← procIoCqLoopLogged cq newDb fuel 0 v
        return (r.1, i :: r.2)
      else do
        let v ← finishOne cqe.sqId v
        let r ← procIoCqLoopLogged cq newDb fuel (i + 1) v
        return (r.1, i :: r.2)

def nvmevProcIoCqLogged (cqid newDb oldDb : Nat) (v : NvmevDev) : Except Fault (NvmevDev × List Nat) :=
  match v.cqes cqid with
  | none => .error .badAddress
  | some cq => procIoCqLoopLogged cq newDb (2 * cq.queueSize + 2) oldDb v

/-- `n` entries fewer in flight. -/
def SubmissionQueue.finishedTimes (n : Nat) (sq : SubmissionQueue) : SubmissionQueue :=
  { sq with stat := { sq.stat with nrInFlight := predU32^[n] sq.stat.nrInFlight } }

/-- The `(new_db - old_db) mod queue_size` entries from the old head on. -/
def consumedEntries (queueSize newDb oldDb : Nat) : List Nat :=
  (List.range ((newDb + queueSize - oldDb) % queueSize)).map fun k => (oldDb + k) % queueSize

/-- The consumed entries that name queue `qid`. -/
def CompletionQueue.finishes (cq : CompletionQueue) (newDb oldDb qid : Nat) : Nat :=
  ((consumedEntries cq.queueSize newDb oldDb).map fun i => (cq.cq i).sqId).count qid

/-- Every consumed entry is taken off its queue, if that one is still there, and nothing else
has changed. -/
structure Finishes (cq : CompletionQueue) (newDb oldDb : Nat) (v v' : NvmevDev) : Prop where
  inFlight : ∀ qid, v'.sqes qid =
    (v.sqes qid).map (SubmissionQueue.finishedTimes (cq.finishes newDb oldDb qid))
  frame : v' = { v with sqes := v'.sqes }

/-- The call returns, has read entries of the ring only, and has finished the consumed ones. -/
def ConsumesRing (cq : CompletionQueue) (cqid newDb oldDb : Nat) (v : NvmevDev) : Prop :=
  ∃ v' reads, nvmevProcIoCqLogged cqid newDb oldDb v = .ok (v', reads) ∧
    (∀ i ∈ reads, i < cq.queueSize ∧ i / nrCqePerPage < divRoundUp (cq.queueSize * 16) 4096) ∧
    Finishes cq newDb oldDb v v'

variable {cq : CompletionQueue} {cqid newDb oldDb : Nat} {v v' : NvmevDev} {reads : List Nat}

theorem procIoCqLoopLogged_fst (fuel i : Nat) :
    (procIoCqLoopLogged cq newDb fuel i v).map Prod.fst = procIoCqLoop cq newDb fuel i v := by
  induction fuel generalizing i v with
  | zero => rfl
  | succ fuel ih =>
    rw [procIoCqLoopLogged, procIoCqLoop]
    by_cases hi : i = newDb
    · rw [if_pos hi, if_pos hi]
      rfl
    rw [if_neg hi, if_neg hi]
    cases cqEntry cq i with
    | error e => rfl
    | ok cqe =>
      rw [ok_bind, ok_bind]
      by_cases hn : cq.queueSize ≤ i
      · rw [if_pos hn, if_pos hn, ← ih]
        cases procIoCqLoopLogged cq newDb fuel 0 v <;> rfl
      rw [if_neg hn, if_neg hn]
      cases finishOne cqe.sqId v with
      | error e => rfl
      | ok w =>
        rw [ok_bind, ok_bind, ← ih]
        cases procIoCqLoopLogged cq newDb fuel (i + 1) w <;> rfl

/-- Without the record of the reads it is `nvmevProcIoCq`. -/
theorem nvmevProcIoCqLogged_fst :
    (nvmevProcIoCqLogged cqid newDb oldDb v).map Prod.fst = nvmevProcIoCq cqid newDb oldDb v := by
  unfold nvmevProcIoCqLogged nvmevProcIoCq
  cases v.cqes cqid with
  | none => rfl
  | some cq => exact procIoCqLoopLogged_fst _ _

/-- The entry of `id` has been taken off, as `finishOne` does it. -/
def NvmevDev.finish (v : NvmevDev) (id : Nat) : NvmevDev :=
  { v with sqes := Function.update v.sqes id ((v.sqes id).map SubmissionQueue.finished) }

def NvmevDev.finishAll (v : NvmevDev) (ids : List Nat) : NvmevDev := ids.foldl NvmevDev.finish v

theorem finishOne_ok {id : Nat} (h : id ≤ nrMaxIoQueue) : finishOne id v = .ok (v.finish id) := by
  unfold finishOne queueIndex
  rw [if_pos h]
  rfl

theorem finishOne_eq_ok {id : Nat} (h : finishOne id v = .ok v') : id ≤ nrMaxIoQueue := by
  obtain ⟨qid, hq, -⟩ := bind_eq_ok.mp h
  unfold queueIndex at hq
  by_contra hn
  rw [if_neg hn] at hq
  cases hq

theorem finish_self (id : Nat) : (v.finish id).sqes id = (v.sqes id).map SubmissionQueue.finished :=
  Function.update_self _ _ _

theorem finish_other {id qid : Nat} (h : qid ≠ id) : (v.finish id).sqes qid = v.sqes qid :=
  Function.update_of_ne h _ _

theorem finishAll_sqes (ids : List Nat) (v : NvmevDev) (qid : Nat) :
    (v.finishAll ids).sqes qid = (v.sqes qid).map (SubmissionQueue.finishedTimes (ids.count qid)) := by
  induction ids generalizing v with
  | nil =>
    rw [List.count_nil]
    exact Option.map_id'.symm
  | cons id ids ih =>
    change ((v.finish id).finishAll ids).sqes qid = _
    rw [ih]
    by_cases hq : qid = id
    · subst hq
      rw [finish_self, Option.map_map, List.count_cons_self]
      rfl
    · rw [finish_other hq, List.count_cons_of_ne (Ne.symm hq)]

theorem finishAll_frame (ids : List Nat) (v : NvmevDev) :
    v.finishAll ids = { v with sqes := (v.finishAll ids).sqes } := by
  induction ids generalizing v with
  | nil => rfl
  | cons id ids ih => exact ih (v.finish id)

theorem finishAll_append (ids more : List Nat) (v : NvmevDev) :
    v.finishAll (ids ++ more) = (v.finishAll ids).finishAll more := List.foldl_append

theorem cqEntry_inside {i : Nat} (hsize : cq.queueSize < 2^31) (hi : i < cq.queueSize) :
    i / nrCqePerPage < divRoundUp (cq.queueSize * 16) 4096 := by
  have hu : u64 (cq.queueSize * 16 + 4096 - 1) = cq.queueSize * 16 + 4096 - 1 :=
    Nat.mod_eq_of_lt (by omega)
  unfold divRoundUp
  rw [hu, nrCqePerPage]
  omega

theorem cqEntry_ok {i : Nat} (hsize : cq.queueSize < 2^31) (hi : i < cq.queueSize) :
    cqEntry cq i = .ok (cq.cq i) := if_pos (cqEntry_inside hsize hi)

/-- The ids that `m` entries name from `i` on. -/
def CompletionQueue.ids (cq : CompletionQueue) (i m : Nat) : List Nat :=
  (List.range' i m).map fun k => (cq.cq k).sqId

/-- The loop goes on over `m` entries that are neither the new head nor outside the ring. -/
theorem procIoCqLoopLogged_advance (hsize : cq.queueSize < 2^31) {i m : Nat} (fuel : Nat)
    (hdb : ∀ k, i ≤ k → k < i + m → k ≠ newDb) (hm : i + m ≤ cq.queueSize)
    (hid : ∀ k, i ≤ k → k < i + m → (cq.cq k).sqId ≤ nrMaxIoQueue) :
    procIoCqLoopLogged cq newDb (fuel + m) i v =
      (procIoCqLoopLogged cq newDb fuel (i + m) (v.finishAll (cq.ids i m))).map
        (fun r => (r.1, List.range' i m ++ r.2)) := by
  induction m generalizing i v with
  | zero =>
    change procIoCqLoopLogged cq newDb fuel i v = _
    cases h : procIoCqLoopLogged cq newDb fuel i v with
    | error e =>
      change _ = Except.map _ (procIoCqLoopLogged cq newDb fuel i v)
      rw [h]
      rfl
    | ok r =>
      change _ = Except.map _ (procIoCqLoopLogged cq newDb fuel i v)
      rw [h]
      rfl
  | succ m ih =>
    have hi : i < cq.queueSize := by omega
    rw [← Nat.add_assoc, procIoCqLoopLogged, if_neg (hdb i (le_refl i) (by omega)), cqEntry_ok hsize hi,
      ok_bind, if_neg (by omega), finishOne_ok (hid i (le_refl i) (by omega)), ok_bind,
      ih (fun k hk hkm => hdb k (by omega) (by omega)) (by omega)
        (fun k hk hkm => hid k (by omega) (by omega)),
      show i + (m + 1) = i + 1 + m by omega]
    have hids : v.finishAll (cq.ids i (m + 1)) = (v.finish (cq.cq i).sqId).finishAll (cq.ids (i + 1) m) := by
      rfl
    rw [hids]
    cases procIoCqLoopLogged cq newDb fuel (i + 1 + m)
      ((v.finish (cq.cq i).sqId).finishAll (cq.ids (i + 1) m)) with
    | error e => rfl
    | ok r => rfl

/-- Once past the new head, the loop comes to the entry behind the ring. -/
theorem procIoCqLoopLogged_past {fuel i : Nat} (hdb : newDb < i) (hi : i ≤ cq.queueSize)
    (h : procIoCqLoopLogged cq newDb fuel i v = .ok (v', reads)) : cq.queueSize ∈ reads := by
  induction fuel generalizing i v reads with
  | zero => cases h
  | succ fuel ih =>
    rw [procIoCqLoopLogged, if_neg (by omega)] at h
    obtain ⟨cqe, -, h⟩ := bind_eq_ok.mp h
    by_cases hn : cq.queueSize ≤ i
    · rw [if_pos hn] at h
      obtain ⟨r, -, h⟩ := bind_eq_ok.mp h
      cases h
      rw [Nat.le_antisymm hn hi]
      exact List.mem_cons_self
    · rw [if_neg hn] at h
      obtain ⟨w, -, h⟩ := bind_eq_ok.mp h
      obtain ⟨r, hr, h⟩ := bind_eq_ok.mp h
      cases h
      exact List.mem_cons_of_mem i (ih (by omega) (by omega) hr)

/-- A loop that returns has found an id of the table in every entry up to the new head. -/
theorem procIoCqLoopLogged_ids (hsize : cq.queueSize < 2^31) {fuel i : Nat} (hdb : newDb ≤ cq.queueSize)
    (h : procIoCqLoopLogged cq newDb fuel i v = .ok (v', reads)) {k : Nat} (hik : i ≤ k) (hk : k < newDb) :
    (cq.cq k).sqId ≤ nrMaxIoQueue := by
  induction fuel generalizing i v reads with
  | zero => cases h
  | succ fuel ih =>
    rw [procIoCqLoopLogged, if_neg (by omega), cqEntry_ok hsize (by omega), ok_bind,
      if_neg (by omega)] at h
    obtain ⟨w, hw, h⟩ := bind_eq_ok.mp h
    obtain ⟨r, hr, h⟩ := bind_eq_ok.mp h
    cases h
    by_cases hki : k = i
    · subst hki
      exact finishOne_eq_ok hw
    · exact ih (i := i + 1) hr (by omega)

theorem consumed_ahead {n : Nat} (hle : oldDb ≤ newDb) (hnew : newDb < n) :
    consumedEntries n newDb oldDb = List.range' oldDb (newDb - oldDb) := by
  have hlen : (newDb + n - oldDb) % n = newDb - oldDb := by
    rw [show newDb + n - oldDb = newDb - oldDb + n by omega, Nat.add_mod_right, Nat.mod_eq_of_lt (by omega)]
  unfold consumedEntries
  rw [hlen, List.range'_eq_map_range]
  refine List.map_congr_left ?_
  intro k hk
  exact Nat.mod_eq_of_lt (by rw [List.mem_range] at hk; omega)

theorem consumed_round {n : Nat} (hlt : newDb < oldDb) (hold : oldDb < n) :
    consumedEntries n newDb oldDb = List.range' oldDb (n - oldDb) ++ List.range' 0 newDb := by
  have hlen : (newDb + n - oldDb) % n = (n - oldDb) + newDb := by
    rw [Nat.mod_eq_of_lt (by omega)]
    omega
  unfold consumedEntries
  rw [hlen, List.range_add, List.map_append, List.map_map, List.range'_eq_map_range,
    ← List.range_eq_range']
  congr 1
  · refine List.map_congr_left ?_
    intro k hk
    exact Nat.mod_eq_of_lt (by rw [List.mem_range] at hk; omega)
  · refine (List.map_congr_left ?_).trans (List.map_id' _)
    intro k hk
    rw [List.mem_range] at hk
    change (oldDb + ((n - oldDb) + k)) % n = k
    rw [show oldDb + ((n - oldDb) + k) = k + n by omega, Nat.add_mod_right, Nat.mod_eq_of_lt (by omega)]

theorem finishes_of_ids {ids : List Nat}
    (h : ids = (consumedEntries cq.queueSize newDb oldDb).map fun i => (cq.cq i).sqId) :
    Finishes cq newDb oldDb v (v.finishAll ids) := by
  refine ⟨?_, finishAll_frame ids v⟩
  intro qid
  rw [finishAll_sqes, h]
  rfl

theorem nvmevProcIoCqLogged_eq (hcq : v.cqes cqid = some cq) : nvmevProcIoCqLogged cqid newDb oldDb v =
    procIoCqLoopLogged cq newDb (2 * cq.queueSize + 2) oldDb v := by
  unfold nvmevProcIoCqLogged
  rw [hcq]

/-- Up to a head that is not behind, the call reads and finishes the entries in between. -/
theorem nvmevProcIoCqLogged_ahead (hsize : cq.queueSize < 2^31) (hcq : v.cqes cqid = some cq)
    (hnew : newDb < cq.queueSize) (hle : oldDb ≤ newDb)
    (hid : ∀ k, oldDb ≤ k → k < newDb → (cq.cq k).sqId ≤ nrMaxIoQueue) :
    nvmevProcIoCqLogged cqid newDb oldDb v =
      .ok (v.finishAll (cq.ids oldDb (newDb - oldDb)), List.range' oldDb (newDb - oldDb)) := by
  obtain ⟨fuel, hfuel⟩ : ∃ fuel, 2 * cq.queueSize + 2 = fuel + 1 + (newDb - oldDb) :=
    ⟨2 * cq.queueSize + 1 - (newDb - oldDb), by omega⟩
  have hend : oldDb + (newDb - oldDb) = newDb := Nat.add_sub_cancel' hle
  rw [nvmevProcIoCqLogged_eq hcq, hfuel,
    procIoCqLoopLogged_advance hsize (fuel + 1) (fun k _ hk => by omega) (by omega)
      (fun k hk hkn => hid k hk (by omega)),
    hend, procIoCqLoopLogged, if_pos rfl]
  simp [Except.map]

/-- The entry behind the ring is on its last page, unless the ring fills that page. -/
theorem cqEntry_behind (hsize : cq.queueSize < 2^31) : cqEntry cq cq.queueSize =
    if cq.queueSize % nrCqePerPage = 0 then .error .badAddress else .ok (cq.cq cq.queueSize) := by
  have hu : u64 (cq.queueSize * 16 + 4096 - 1) = cq.queueSize * 16 + 4096 - 1 :=
    Nat.mod_eq_of_lt (by omega)
  unfold cqEntry divRoundUp
  rw [hu, nrCqePerPage]
  by_cases hfull : cq.queueSize % 256 = 0
  · rw [if_pos hfull, if_neg (by omega)]
  · rw [if_neg hfull, if_pos (by omega)]

/-- Round the end of the ring, the call finishes the right entries if it survives the read behind
the ring, and it survives that one when the ring does not fill its last page. -/
theorem nvmevProcIoCqLogged_round (hsize : cq.queueSize < 2^31) (hcq : v.cqes cqid = some cq)
    (hold : oldDb < cq.queueSize) (hlt : newDb < oldDb)
    (hid : ∀ k < cq.queueSize, oldDb ≤ k ∨ k < newDb → (cq.cq k).sqId ≤ nrMaxIoQueue) :
    nvmevProcIoCqLogged cqid newDb oldDb v =
      if cq.queueSize % nrCqePerPage = 0 then .error .badAddress
      else .ok (v.finishAll (cq.ids oldDb (cq.queueSize - oldDb) ++ cq.ids 0 newDb),
        List.range' oldDb (cq.queueSize - oldDb) ++ cq.queueSize :: List.range' 0 newDb) := by
  obtain ⟨fuel, hfuel⟩ : ∃ fuel, 2 * cq.queueSize + 2 = fuel + 1 + newDb + 1 + (cq.queueSize - oldDb) :=
    ⟨2 * cq.queueSize - newDb - (cq.queueSize - oldDb), by omega⟩
  have hend : oldDb + (cq.queueSize - oldDb) = cq.queueSize := Nat.add_sub_cancel' (le_of_lt hold)
  rw [nvmevProcIoCqLogged_eq hcq, hfuel,
    procIoCqLoopLogged_advance hsize (fuel + 1 + newDb + 1) (fun k hk _ => by omega) (by omega)
      (fun k hk hkn => hid k (by omega) (Or.inl hk)),
    hend, procIoCqLoopLogged, if_neg (by omega), cqEntry_behind hsize]
  by_cases hfull : cq.queueSize % nrCqePerPage = 0
  · rw [if_pos hfull, if_pos hfull]
    rfl
  rw [if_neg hfull, if_neg hfull, ok_bind, if_pos (le_refl _),
    procIoCqLoopLogged_advance hsize (fuel + 1) (fun k _ hk => by omega) (by omega)
      (fun k hk hkn => hid k (by omega) (Or.inr (by omega))),
    Nat.zero_add, procIoCqLoopLogged, if_pos rfl, finishAll_append]
  simp [Except.map]

/-- The entries finished are right round the end of the ring too. -/
theorem nvmevProcIoCq_round (hsize : cq.queueSize < 2^31) (hcq : v.cqes cqid = some cq)
    (hold : oldDb < cq.queueSize) (hlt : newDb < oldDb) (hroom : cq.queueSize % nrCqePerPage ≠ 0)
    (hid : ∀ k < cq.queueSize, oldDb ≤ k ∨ k < newDb → (cq.cq k).sqId ≤ nrMaxIoQueue) :
    ∃ v', nvmevProcIoCq cqid newDb oldDb v = .ok v' ∧ Finishes cq newDb oldDb v v' := by
  have hrun := nvmevProcIoCqLogged_round hsize hcq hold hlt hid
  rw [if_neg hroom] at hrun
  have hfst := congrArg (Except.map Prod.fst) hrun
  rw [nvmevProcIoCqLogged_fst] at hfst
  refine ⟨_, hfst, finishes_of_ids ?_⟩
  rw [consumed_round hlt hold, List.map_append]
  rfl

/-- `nvmev_proc_io_cq` keeps to the ring and finishes the consumed entries exactly when it does not
go round the end of the ring and the entries name queues of the table. -/
theorem nvmevProcIoCq_consumes (hsize : cq.queueSize < 2^31) (hcq : v.cqes cqid = some cq)
    (hnew : newDb < cq.queueSize) (hold : oldDb < cq.queueSize) :
    ConsumesRing cq cqid newDb oldDb v ↔
      oldDb ≤ newDb ∧ ∀ i ∈ consumedEntries cq.queueSize newDb oldDb, (cq.cq i).sqId ≤ nrMaxIoQueue := by
  constructor
  · rintro ⟨v', reads, hrun, hreads, -⟩
    rw [nvmevProcIoCqLogged_eq hcq] at hrun
    have hle : oldDb ≤ newDb := by
      by_contra hlt
      have hmem := procIoCqLoopLogged_past (by omega) (le_of_lt hold) hrun
      exact Nat.lt_irrefl _ (hreads _ hmem).1
    refine ⟨hle, ?_⟩
    intro i hi
    rw [consumed_ahead hle hnew, List.mem_range'_1] at hi
    exact procIoCqLoopLogged_ids hsize (le_of_lt hnew) hrun hi.1 (by omega)
  · rintro ⟨hle, hid⟩
    have hconsumed := consumed_ahead hle hnew
    rw [hconsumed] at hid
    have hrun := nvmevProcIoCqLogged_ahead hsize hcq hnew hle
      (fun k hk hkn => hid k (List.mem_range'_1.mpr ⟨hk, by omega⟩))
    refine ⟨_, _, hrun, ?_, finishes_of_ids ?_⟩
    · intro i hi
      rw [List.mem_range'_1] at hi
      have hlt : i < cq.queueSize := by omega
      exact ⟨hlt, cqEntry_inside hsize hlt⟩
    · rw [hconsumed]
      rfl

/-- A ring that fills its page, all of its entries for submission queue 1, which has three in flight. -/
def pageRing : CompletionQueue := createdCq 255 fun _ => ⟨0, 0, 0, 1, 0, 0⟩

def pageRingDev : NvmevDev :=
  let v := adminDev adminQueue2 abortCommand
  let sq := createdSq 255 1 (v.mem.ioSq 0)
  { v with
    cqes := Function.update v.cqes 1 (some pageRing)
    sqes := Function.update v.sqes 1 (some { sq with stat := { sq.stat with nrInFlight := 3 } }) }

theorem pageRing_ids (i : Nat) : (pageRing.cq i).sqId ≤ nrMaxIoQueue :=
  show 1 ≤ nrMaxIoQueue by decide

theorem nvmevProcIoCq_consumes_page : pageRing.queueSize = 256 ∧ pageRingDev.cqes 1 = some pageRing ∧
    (ConsumesRing pageRing 1 2 0 pageRingDev ↔
      0 ≤ 2 ∧ ∀ i ∈ consumedEntries 256 2 0, (pageRing.cq i).sqId ≤ nrMaxIoQueue) ∧
    ConsumesRing pageRing 1 2 0 pageRingDev := by
  have h : ConsumesRing pageRing 1 2 0 pageRingDev ↔
      0 ≤ 2 ∧ ∀ i ∈ consumedEntries 256 2 0, (pageRing.cq i).sqId ≤ nrMaxIoQueue :=
    nvmevProcIoCq_consumes (by decide) rfl (by decide) (by decide)
  exact ⟨rfl, rfl, h, h.mpr ⟨by decide, fun i _ => pageRing_ids i⟩⟩

/-- From the last entry round to the first: entry 256 would be on a page that the array does not have. -/
theorem nvmevProcIoCq_leaves_page : pageRingDev.cqes 1 = some pageRing ∧ 0 < pageRing.queueSize ∧
    255 < pageRing.queueSize ∧ nvmevProcIoCq 1 0 255 pageRingDev = .error .badAddress ∧
    ¬ ConsumesRing pageRing 1 0 255 pageRingDev := by
  have herr : nvmevProcIoCqLogged 1 0 255 pageRingDev = .error .badAddress :=
    (nvmevProcIoCqLogged_round (by decide) rfl (by decide) (by decide)
      (fun i _ _ => pageRing_ids i)).trans (if_pos (by decide))
  refine ⟨rfl, by decide, by decide, ?_, ?_⟩
  · rw [← nvmevProcIoCqLogged_fst, herr]
    rfl
  · rintro ⟨v', reads, hrun, -⟩
    rw [herr] at hrun
    cases hrun

end NVMeVirt
