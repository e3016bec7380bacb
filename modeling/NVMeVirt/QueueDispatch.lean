import NVMeVirt.Doorbells
import NVMeVirt.QueueLife

/-!
# The dispatcher's calls as runs

A call of `nvmev_proc_dbs` is a run of the interleaved steps, whatever the handlers do, so that
what holds of every state of such runs holds before, after and between calls.
-/

namespace NVMeVirt
set_option autoImplicit false
open Outcome

variable {σ : Type} {proc : ProcIoCmd σ} {rules : QueueRules} {curr : Nat → Nat}
  {v v' w : NvmevDev} {io io' io'' : IoDev}

structure QuietRun (rules : QueueRules) (curr : Nat → Nat) (v v' : NvmevDev) (io io' : IoDev) :
    Prop where
  run : LifeRun rules ⟨v, io, curr⟩ ⟨v', io', curr⟩
  same : SameQueues v v'

theorem QuietRun.refl : QuietRun rules curr v v io io := ⟨.refl, .refl v⟩

theorem QuietRun.trans (h : QuietRun rules curr v w io io') (h' : QuietRun rules curr w v' io' io'') :
    QuietRun rules curr v v' io io'' :=
  ⟨Relation.ReflTransGen.trans h.run h'.run, h.same.trans h'.same⟩

theorem QuietRun.update (h : SameQueues v v') : QuietRun rules curr v v' io io :=
  ⟨.single (.update h), h⟩

theorem sameQueues_update {qid : Nat} {sq : Option SubmissionQueue}
    (h : sq.map SubmissionQueue.cqid = (v.sqes qid).map SubmissionQueue.cqid) :
    SameQueues v { v with sqes := Function.update v.sqes qid sq } := by
  refine ⟨fun i => ?_, fun _ => rfl⟩
  by_cases hi : i = qid
  · subst hi
    dsimp only
    rw [Function.update_self]
    exact h
  · dsimp only
    rw [Function.update_of_ne hi]

theorem sameQueues_map {qid : Nat} {f : SubmissionQueue → SubmissionQueue}
    (h : ∀ sq, (f sq).cqid = sq.cqid) :
    SameQueues v { v with sqes := Function.update v.sqes qid ((v.sqes qid).map f) } := by
  apply sameQueues_update
  cases v.sqes qid with
  | none => rfl
  | some sq => exact congrArg some (h sq)

theorem reclaimCompletedReqs_run (h : reclaimCompletedReqs io = .ok io') :
    QuietRun rules curr v v io io' := by
  refine (upto_sat (Q := fun _ => True) (fun _ t => QuietRun rules curr v v io t) io.nrIoWorkers
    .refl ?_).of_ok h
  intro turn _ t ht
  cases hr : reclaimWorker (t.ioWorkers turn) with
  | error e => trivial
  | ok worker => exact ht.trans ⟨.single (.reclaim hr), .refl v⟩

theorem scheduleCalls_run {sqid now : Nat} {calls : List ReleaseCall}
    (h : scheduleCalls sqid now calls io = .ok io') : QuietRun rules curr v v io io' := by
  induction calls generalizing io with
  | nil =>
    cases h
    exact .refl
  | cons c rest ih =>
    obtain ⟨io₁, h₁, h⟩ := bind_eq_ok.mp h
    have hone : QuietRun rules curr v v io io₁ :=
      ⟨.single (.schedule sqid c.nsecsTarget c.writeBuffer c.buffsToRelease now h₁), .refl v⟩
    exact hone.trans (ih h)

/-- While the same queues exist, the rules let the dispatcher take requests from all of them. -/
def Permits (rules : QueueRules) (v : NvmevDev) : Prop :=
  ∀ s : QueueLife, SameQueues v s.adm → ∀ qid sq, s.adm.sqes qid = some sq → rules.dispatch s sq

theorem Permits.same (h : Permits rules v) (hs : SameQueues v v') : Permits rules v' :=
  fun s hs' => h s (hs.trans hs')

theorem permits_any (v : NvmevDev) : Permits .any v := fun _ _ _ _ _ => trivial

theorem permits_drained (h : ∀ qid sq, v.sqes qid = some sq → (v.cqes sq.cqid).isSome) :
    Permits .drained v := by
  intro s hs qid sq hsq
  have hmap := hs.sqs qid
  rw [hsq, Option.map_some] at hmap
  obtain ⟨sq₀, hsq₀, hc⟩ := Option.map_eq_some_iff.mp hmap.symm
  change (s.adm.cqes sq.cqid).isSome
  rw [hs.cqs, ← hc]
  exact h qid sq₀ hsq₀

/-- The tables of `v` with the dispatcher's submission queues. -/
def NvmevDev.withSqs (v : NvmevDev) (d : Dispatcher σ) : NvmevDev := { v with sqes := d.sqes }

variable {d d' : Dispatcher σ}

theorem nvmevProcIo_run {sqid sqEntry wall now : Nat} {size : Option Nat}
    (hp : Permits rules (v.withSqs d))
    (h : nvmevProcIo proc d sqid sqEntry wall now = .ok (d', size)) :
    QuietRun rules curr (v.withSqs d) (v.withSqs d') d.io d'.io := by
  unfold nvmevProcIo at h
  cases hsq : d.sqes sqid with
  | none =>
    rw [hsq] at h
    cases h
  | some sq =>
    rw [hsq] at h
    obtain ⟨o, ho, h⟩ := bind_eq_ok.mp h
    obtain ⟨io₁, hio, h⟩ := bind_eq_ok.mp h
    generalize hq : { sq with sq := Function.update sq.sq sqEntry o.cmd } = sq' at h
    have hc : sq'.cqid = sq.cqid := hq ▸ rfl
    -- the handler has rewritten the entry
    have hentry : QuietRun rules curr (v.withSqs d)
        { v with sqes := Function.update d.sqes sqid (some sq') } d.io io₁ := by
      refine (scheduleCalls_run hio).trans (.update (sameQueues_update (v := v.withSqs d) ?_))
      change some sq'.cqid = (d.sqes sqid).map SubmissionQueue.cqid
      rw [hsq, hc]
      rfl
    cases hacc : o.accepted with
    | false =>
      rw [hacc, if_pos rfl] at h
      cases h
      exact hentry
    | true =>
      rw [hacc, if_neg (by simp)] at h
      obtain ⟨io₂, henq, h⟩ := bind_eq_ok.mp h
      obtain ⟨io₃, hrec, h⟩ := bind_eq_ok.mp h
      cases h
      have hself : Function.update d.sqes sqid (some sq') sqid = some sq' := Function.update_self _ _ _
      have hallow := hp ⟨_, io₁, curr⟩ hentry.same sqid sq' hself
      have hplaced : QuietRun rules curr { v with sqes := Function.update d.sqes sqid (some sq') } _
          io₁ io₂ :=
        ⟨.single (.enqueue hself hallow sqEntry o.cmd.commandId wall now o.ret henq), .refl _⟩
      exact (hentry.trans hplaced).trans (reclaimCompletedReqs_run hrec)

theorem updateSq_run (sqid : Nat) {f : SubmissionQueue → SubmissionQueue}
    (hf : ∀ sq, (f sq).cqid = sq.cqid) :
    QuietRun rules curr (v.withSqs d) (v.withSqs (d.updateSq sqid f)) d.io d.io :=
  .update (sameQueues_map (v := v.withSqs d) hf)

theorem procIoLoop_run {sqid queueSize : Nat} {wall now : Nat → Nat} {n seq sqEntry seq' : Nat}
    (hp : Permits rules (v.withSqs d))
    (h : procIoLoop proc sqid queueSize wall now n seq sqEntry d = .ok (d', seq')) :
    QuietRun rules curr (v.withSqs d) (v.withSqs d') d.io d'.io := by
  induction n generalizing seq sqEntry d with
  | zero =>
    cases h
    exact .refl
  | succ n ih =>
    obtain ⟨⟨d₁, size⟩, h₁, h⟩ := bind_eq_ok.mp h
    have hone : QuietRun rules curr (v.withSqs d) (v.withSqs d₁) d.io d₁.io := nvmevProcIo_run hp h₁
    cases size with
    | none =>
      cases h
      exact hone
    | some ioSize =>
      have hcount : QuietRun rules curr (v.withSqs d₁)
          (v.withSqs (d₁.updateSq sqid (·.dispatched ioSize))) _ _ := updateSq_run sqid (fun _ => rfl)
      have htaken := hone.trans hcount
      exact htaken.trans (ih (hp.same htaken.same) h)

theorem nvmevProcIoSq_run {sqid newDb oldDb latest : Nat} {wall now : Nat → Nat}
    (hp : Permits rules (v.withSqs d))
    (h : nvmevProcIoSq proc d sqid newDb oldDb wall now = .ok (d', latest)) :
    QuietRun rules curr (v.withSqs d) (v.withSqs d') d.io d'.io := by
  unfold nvmevProcIoSq at h
  cases hsq : d.sqes sqid with
  | none =>
    rw [hsq] at h
    cases h
    exact .refl
  | some sq =>
    rw [hsq] at h
    obtain ⟨⟨d₁, seq⟩, h₁, h⟩ := bind_eq_ok.mp h
    obtain ⟨queueSize, -, h⟩ := bind_eq_ok.mp h
    cases h
    exact (procIoLoop_run hp h₁).trans (updateSq_run sqid (fun _ => rfl))

theorem sameQueues_of_tables (hs : v'.sqes = v.sqes) (hc : v'.cqes = v.cqes) : SameQueues v v' :=
  ⟨fun qid => by rw [hs], fun qid => by rw [hc]⟩

variable {wall now : Nat → Nat → Nat} {dev dev' : Device σ}

theorem procDbsSq_run {qid : Nat} (hp : Permits rules dev.adm)
    (h : procDbsSq proc wall now qid dev = .ok dev') :
    QuietRun rules curr dev.adm dev'.adm dev.io dev'.io := by
  unfold procDbsSq at h
  cases hsq : dev.adm.sqes qid with
  | none =>
    rw [hsq] at h
    cases h
    exact .refl
  | some sq =>
    rw [hsq] at h
    dsimp only at h
    split at h
    · cases h
      exact .refl
    · obtain ⟨⟨d, latest⟩, hio, h⟩ := bind_eq_ok.mp h
      cases h
      have hsqs : QuietRun rules curr dev.adm (dev.adm.withSqs d) dev.io d.io :=
        nvmevProcIoSq_run (v := dev.adm) hp hio
      exact hsqs.trans (.update (sameQueues_of_tables rfl rfl))

theorem procDbsSqs_run {n : Nat} (hp : Permits rules dev.adm)
    (h : procDbsSqs proc wall now n dev = .ok dev') :
    QuietRun rules curr dev.adm dev'.adm dev.io dev'.io := by
  refine (upto_sat (Q := fun _ => True) (fun _ t => QuietRun rules curr dev.adm t.adm dev.io t.io) n .refl
    ?_).of_ok h
  intro k _ t ht
  cases hr : procDbsSq proc wall now (k + 1) t with
  | error e => trivial
  | ok t' => exact ht.trans (procDbsSq_run (hp.same ht.same) hr)

theorem finishOne_run {sqid : Nat} (h : finishOne sqid v = .ok v') : QuietRun rules curr v v' io io := by
  obtain ⟨qid, -, h⟩ := bind_eq_ok.mp h
  cases h
  exact .update (sameQueues_map (fun _ => rfl))

theorem procIoCqLoop_run {cq : CompletionQueue} {newDb fuel i : Nat}
    (h : procIoCqLoop cq newDb fuel i v = .ok v') : QuietRun rules curr v v' io io := by
  induction fuel generalizing i v with
  | zero => cases h
  | succ fuel ih =>
    unfold procIoCqLoop at h
    split at h
    · cases h
      exact .refl
    · obtain ⟨cqe, -, h⟩ := bind_eq_ok.mp h
      split at h
      · exact ih h
      · obtain ⟨v₁, h₁, h⟩ := bind_eq_ok.mp h
        exact (finishOne_run h₁).trans (ih h)

theorem procDbsCq_run {qid : Nat} (h : procDbsCq qid dev = .ok dev') :
    QuietRun rules curr dev.adm dev'.adm dev.io dev'.io := by
  unfold procDbsCq at h
  cases hcq : dev.adm.cqes qid with
  | none =>
    rw [hcq] at h
    cases h
    exact .refl
  | some cq =>
    rw [hcq] at h
    dsimp only at h
    split at h
    · cases h
      exact .refl
    · obtain ⟨adm, hio, h⟩ := bind_eq_ok.mp h
      cases h
      unfold nvmevProcIoCq at hio
      rw [hcq] at hio
      exact (procIoCqLoop_run hio).trans (.update (sameQueues_of_tables rfl rfl))

theorem procDbsCqs_run {n : Nat} (h : procDbsCqs n dev = .ok dev') :
    QuietRun rules curr dev.adm dev'.adm dev.io dev'.io := by
  refine (upto_sat (Q := fun _ => True) (fun _ t => QuietRun rules curr dev.adm t.adm dev.io t.io) n .refl
    ?_).of_ok h
  intro k _ t ht
  cases hr : procDbsCq (k + 1) t with
  | error e => trivial
  | ok t' => exact ht.trans (procDbsCq_run hr)

/-- Each of the next `n` admin commands is one that the rules allow when its turn comes. -/
def AdminObeys (rules : QueueRules) (io : IoDev) (curr : Nat → Nat) (sqDepth : Nat) :
    Nat → Nat → NvmevDev → Prop
  | 0, _, _ => True
  | n + 1, eid, v => (∀ cmd, v.sqEntry eid = .ok cmd → rules.admin ⟨v, io, curr⟩ cmd) ∧
    ∀ v', procAdminReq eid v = .ok v' →
      AdminObeys rules io curr sqDepth n (if eid + 1 = sqDepth then 0 else eid + 1) v'

theorem adminObeys_any (io : IoDev) (curr : Nat → Nat) (sqDepth n eid : Nat) (v : NvmevDev) :
    AdminObeys .any io curr sqDepth n eid v := by
  induction n generalizing eid v with
  | zero => trivial
  | succ n ih => exact ⟨fun _ _ => trivial, fun v' _ => ih _ v'⟩

theorem procAdminLoop_run {sqDepth n eid : Nat} (ha : AdminObeys rules io curr sqDepth n eid v)
    (h : procAdminLoop sqDepth n eid v = .ok v') : LifeRun rules ⟨v, io, curr⟩ ⟨v', io, curr⟩ := by
  induction n generalizing eid v with
  | zero =>
    cases h
    exact .refl
  | succ n ih =>
    obtain ⟨v₁, h₁, h⟩ := bind_eq_ok.mp h
    obtain ⟨cmd, hcmd, -⟩ := bind_eq_ok.mp h₁
    have hone : LifeStep rules ⟨v, io, curr⟩ ⟨v₁, io, curr⟩ := .admin hcmd (ha.1 cmd hcmd) h₁
    exact .head hone (ih (ha.2 v₁ h₁) h)

/-- The admin commands that this call of `nvmev_proc_dbs` takes. -/
def AdminCallObeys (rules : QueueRules) (dev : Device σ) (curr : Nat → Nat) : Prop :=
  dev.adm.dbs 0 ≠ dev.adm.oldDbs 0 → ∀ queue, dev.adm.queue = .ok queue →
    AdminObeys rules dev.io curr queue.sqDepth (if dev.adm.dbs 0 < dev.adm.oldDbs 0 then
      dev.adm.dbs 0 + queue.sqDepth - dev.adm.oldDbs 0 else dev.adm.dbs 0 - dev.adm.oldDbs 0)
      (dev.adm.oldDbs 0) dev.adm

theorem procDbsAdmin_run (ha : AdminCallObeys rules dev curr) (h : procDbsAdmin dev.adm = .ok v') :
    LifeRun rules ⟨dev.adm, dev.io, curr⟩ ⟨v', dev.io, curr⟩ := by
  obtain ⟨v₁, h₁, h⟩ := bind_eq_ok.mp h
  cases h
  have hcq : LifeRun rules ⟨v₁, dev.io, curr⟩ ⟨procDbsAdminCq v₁, dev.io, curr⟩ :=
    .single (.update (sameQueues_of_tables rfl rfl))
  unfold procDbsAdminSq at h₁
  split at h₁
  · cases h₁
    exact hcq
  · rename_i hmoved
    obtain ⟨v₂, h₂, h₁⟩ := bind_eq_ok.mp h₁
    cases h₁
    obtain ⟨queue, hqueue, h₂⟩ := bind_eq_ok.mp h₂
    have hdb : LifeRun rules ⟨v₂, dev.io, curr⟩ ⟨v₂.setOldDb 0 (dev.adm.dbs 0), dev.io, curr⟩ :=
      .single (.update (sameQueues_of_tables rfl rfl))
    exact ((procAdminLoop_run (ha hmoved queue hqueue) h₂).trans hdb).trans hcq

def Device.life (dev : Device σ) (curr : Nat → Nat) : QueueLife := ⟨dev.adm, dev.io, curr⟩

/-- A call of `nvmev_proc_dbs` whose commands obey the rules is a run of the interleaved steps. -/
theorem nvmevProcDbs_run (ha : AdminCallObeys rules dev curr)
    (hp : ∀ adm, procDbsAdmin dev.adm = .ok adm → Permits rules adm)
    (h : nvmevProcDbs proc wall now dev = .ok dev') : LifeRun rules (dev.life curr) (dev'.life curr) := by
  obtain ⟨adm, hadm, h⟩ := bind_eq_ok.mp h
  obtain ⟨dev₁, hsqs, h⟩ := bind_eq_ok.mp h
  have hsq : QuietRun rules curr adm dev₁.adm dev.io dev₁.io := procDbsSqs_run (hp adm hadm) hsqs
  exact (procDbsAdmin_run ha hadm).trans (hsq.trans (procDbsCqs_run h)).run

/-- So every call is a run with a host that asks for anything. -/
theorem nvmevProcDbs_reachable (hr : LifeReachable .any (dev.life curr))
    (h : nvmevProcDbs proc wall now dev = .ok dev') : LifeReachable .any (dev'.life curr) := by
  obtain ⟨adm, nrIoWorkers, hrun⟩ := hr
  exact ⟨adm, nrIoWorkers, hrun.trans (nvmevProcDbs_run (fun _ _ _ => adminObeys_any _ _ _ _ _ _)
    (fun _ _ => permits_any _) h)⟩

/-- With a host that drains its queues, the call leaves a device whose workers find their queues. -/
theorem nvmevProcDbs_finds_queues (hr : LifeReachable .drained (dev.life curr))
    (ha : AdminCallObeys .drained dev curr)
    (hq : ∀ adm, procDbsAdmin dev.adm = .ok adm → ∀ qid sq, adm.sqes qid = some sq →
      (adm.cqes sq.cqid).isSome)
    (h : nvmevProcDbs proc wall now dev = .ok dev') : (dev'.life curr).FindsQueues := by
  obtain ⟨adm, nrIoWorkers, hrun⟩ := hr
  have hcall := nvmevProcDbs_run ha (fun adm hadm => permits_drained (hq adm hadm)) h
  exact (LifeRun.supplied (init_supplied adm nrIoWorkers) (hrun.trans hcall)).findsQueues

end NVMeVirt
