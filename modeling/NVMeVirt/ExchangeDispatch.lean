import NVMeVirt.CommandExchange
import NVMeVirt.HandlerLog
import NVMeVirt.QueueDispatch
import NVMeVirt.SubmissionRing
import NVMeVirt.IoNamespaces

/-!
# The device as an exchange

A device with one worker, its hosts writing slots and doorbells: calls of `nvmev_proc_dbs` are runs of
the steps of `CommandExchange`, whatever the handlers answer, and so are the turns of the worker, whose
completions go into the queues of the tables. The doorbells stand where the exchange counts, and what
the works are given is what the handlers have logged.
-/

namespace NVMeVirt
set_option autoImplicit false
open Outcome Ring

variable {σ : Type} {proc : ProcIoCmd σ} {cfg : QueueConfig} {s : Exchange}

/-- The handlers rewrite the address of a zone append at most. -/
def RewritesSlba (proc : ProcIoCmd σ) : Prop :=
  ∀ i ftl cmd sqid wall ret o, proc i ftl cmd sqid wall ret = .ok o → HeldAs cmd o.cmd

structure OneWorker (io : IoDev) (s : Exchange) : Prop where
  one : io.nrIoWorkers = 1
  worker : io.ioWorkers 0 = s.trace.worker

structure QueueOf (cfg : QueueConfig) (s : Exchange) (qid : Nat) (sq : SubmissionQueue) : Prop where
  size : sq.queueSize = cfg.sqSize qid
  cqid : sq.cqid = cfg.cqid qid
  slots : sq.sq = s.sq qid

structure DispatcherOf (cfg : QueueConfig) (s : Exchange) (d : Dispatcher σ) : Prop where
  io : OneWorker d.io s
  queues : ∀ qid sq, d.sqes qid = some sq → QueueOf cfg s qid sq

structure QueueServed (cfg : QueueConfig) (sqid : Nat) (s s' : Exchange) : Prop where
  run : DispatcherRun cfg s s'
  sends : s'.sends = s.sends
  hosts : s'.hosts = s.hosts
  cqes : s'.cqes = s.cqes
  cursor : s'.trace.curr = s.trace.curr ∧ s'.trace.clock = s.trace.clock
  others : ∀ qid, qid ≠ sqid → s'.results qid = s.results qid

variable {sqid : Nat}

theorem QueueServed.refl (s : Exchange) : QueueServed cfg sqid s s :=
  ⟨.refl, rfl, rfl, rfl, ⟨rfl, rfl⟩, fun _ _ => rfl⟩

theorem QueueServed.trans {s₁ s₂ : Exchange} (h : QueueServed cfg sqid s s₁)
    (h' : QueueServed cfg sqid s₁ s₂) : QueueServed cfg sqid s s₂ where
  run := h.run.trans h'.run
  sends := h'.sends.trans h.sends
  hosts := h'.hosts.trans h.hosts
  cqes := h'.cqes.trans h.cqes
  cursor := ⟨h'.cursor.1.trans h.cursor.1, h'.cursor.2.trans h.cursor.2⟩
  others qid hq := (h'.others qid hq).trans (h.others qid hq)

theorem QueueServed.sent {s' : Exchange} (h : QueueServed cfg sqid s s') : s'.sent = s.sent :=
  Exchange.sent_congr h.sends

theorem QueueServed.quiet {s' : Exchange} (hstep : DispatcherStep cfg s s') (hsends : s'.sends = s.sends)
    (hhosts : s'.hosts = s.hosts) (hcqes : s'.cqes = s.cqes) (htakes : s'.takes = s.takes)
    (hcursor : s'.trace.curr = s.trace.curr ∧ s'.trace.clock = s.trace.clock) :
    QueueServed cfg sqid s s' := by
  refine ⟨.single hstep, hsends, hhosts, hcqes, hcursor, fun qid _ => ?_⟩
  rw [Exchange.results_congr htakes]

theorem QueueServed.take {s' : Exchange} {r : Option NvmevResult} (hstep : DispatcherStep cfg s s')
    (hsends : s'.sends = s.sends) (hhosts : s'.hosts = s.hosts) (hcqes : s'.cqes = s.cqes)
    (htakes : s'.takes = s.takes ++ [(sqid, r)])
    (hcursor : s'.trace.curr = s.trace.curr ∧ s'.trace.clock = s.trace.clock) :
    QueueServed cfg sqid s s' := by
  refine ⟨.single hstep, hsends, hhosts, hcqes, hcursor, fun qid hq => ?_⟩
  unfold Exchange.results
  rw [htakes]
  exact ofQueue_snoc_other (Ne.symm hq)

structure Records (s : Exchange) (log : List (Nat × HandlerAnswer)) : Prop where
  length : ∀ qid, (ofQueue qid log).length = (s.results qid).length
  given : ∀ qid (n : Nat) a, (ofQueue qid log)[n]? = some a →
    ∃ cmd, (s.sent qid)[n]? = some cmd ∧ HeldAs cmd a.cmd
  answered : ∀ qid (n : Nat) ret, (s.results qid)[n]? = some (some ret) →
    ∃ a, (ofQueue qid log)[n]? = some a ∧ a.ret = ret

theorem Records.mono {s' : Exchange} {log : List (Nat × HandlerAnswer)} (k : Records s log)
    (hsent : ∀ qid (n : Nat) cmd, (s.sent qid)[n]? = some cmd → (s'.sent qid)[n]? = some cmd)
    (htakes : s'.takes = s.takes) : Records s' log := by
  have hresults := Exchange.results_congr htakes
  refine ⟨?_, ?_, ?_⟩
  · rw [hresults]
    exact k.length
  · intro qid n a ha
    obtain ⟨cmd, hcmd, hheld⟩ := k.given qid n a ha
    exact ⟨cmd, hsent qid n cmd hcmd, hheld⟩
  · rw [hresults]
    exact k.answered

theorem Records.congr {s' : Exchange} {log : List (Nat × HandlerAnswer)} (k : Records s log)
    (hsends : s'.sends = s.sends) (htakes : s'.takes = s.takes) : Records s' log := by
  refine k.mono ?_ htakes
  rw [Exchange.sent_congr hsends]
  exact fun _ _ _ h => h

/-- The next command of a queue is taken off, and a work made for it is given the answer. -/
theorem Records.take {s' : Exchange} {log : List (Nat × HandlerAnswer)} (k : Records s log)
    {r : Option NvmevResult} {a : HandlerAnswer} (hsends : s'.sends = s.sends)
    (htakes : s'.takes = s.takes ++ [(sqid, r)]) (hr : ∀ ret, r = some ret → a.ret = ret)
    (hgiven : ∃ cmd, (s.sent sqid)[(s.results sqid).length]? = some cmd ∧ HeldAs cmd a.cmd) :
    Records s' (log ++ [(sqid, a)]) := by
  have hsent := Exchange.sent_congr hsends
  have hother : ∀ qid, qid ≠ sqid → s'.results qid = s.results qid ∧
      ofQueue qid (log ++ [(sqid, a)]) = ofQueue qid log := by
    intro qid hq
    unfold Exchange.results
    rw [htakes]
    exact ⟨ofQueue_snoc_other (Ne.symm hq), ofQueue_snoc_other (Ne.symm hq)⟩
  have hself : s'.results sqid = s.results sqid ++ [r] := by
    unfold Exchange.results
    rw [htakes]
    exact ofQueue_snoc_self
  have hlog : ofQueue sqid (log ++ [(sqid, a)]) = ofQueue sqid log ++ [a] := ofQueue_snoc_self
  refine ⟨?_, ?_, ?_⟩
  · intro qid
    by_cases hq : qid = sqid
    · subst hq
      rw [hself, hlog, List.length_append, List.length_append, k.length]
      rfl
    · obtain ⟨hres, hl⟩ := hother qid hq
      rw [hres, hl]
      exact k.length qid
  · intro qid n b hb
    rw [hsent]
    by_cases hq : qid = sqid
    · subst hq
      rw [hlog] at hb
      rcases getElem?_snoc hb with hb | ⟨rfl, rfl⟩
      · exact k.given qid n b hb
      · rw [k.length]
        exact hgiven
    · rw [(hother qid hq).2] at hb
      exact k.given qid n b hb
  · intro qid n ret hret
    by_cases hq : qid = sqid
    · subst hq
      rw [hself] at hret
      rw [hlog]
      rcases getElem?_snoc hret with hbefore | ⟨rfl, hlast⟩
      · obtain ⟨b, hb, hbr⟩ := k.answered qid n ret hbefore
        exact ⟨b, getElem?_kept hb, hbr⟩
      · rw [← k.length]
        exact ⟨a, List.getElem?_concat_length, hr ret hlast⟩
    · obtain ⟨hres, hl⟩ := hother qid hq
      rw [hres] at hret
      rw [hl]
      exact k.answered qid n ret hret

theorem OneWorker.placeWork {io io' : IoDev} (k : OneWorker io s) {t : Nat} {fill : IoWork → IoWork}
    (h : placeWork io sqid fill t = .ok io') :
    placeEntry s.trace.worker fill t = .ok none ∧ io' = io ∨
    ∃ worker', placeEntry s.trace.worker fill t = .ok (some worker') ∧ io'.nrIoWorkers = 1 ∧
      io'.ioWorkers 0 = worker' := by
  have hn : 0 < io.nrIoWorkers := by rw [k.one]; decide
  unfold NVMeVirt.placeWork at h
  rw [getIoWorker_ok hn, ok_bind, workerOf_one k.one, k.worker] at h
  obtain ⟨placed, hp, h⟩ := bind_eq_ok.mp h
  cases placed with
  | none => exact Or.inl ⟨hp, (Except.ok.inj h).symm⟩
  | some worker' =>
    cases h
    have hself : Function.update io.ioWorkers 0 worker' 0 = worker' := Function.update_self _ _ _
    exact Or.inr ⟨worker', hp, k.one, hself⟩

theorem OneWorker.reclaim (cfg : QueueConfig) {io io' : IoDev} (k : OneWorker io s)
    (h : reclaimCompletedReqs io = .ok io') :
    ∃ s', QueueServed cfg sqid s s' ∧ OneWorker io' s' ∧ s'.sq = s.sq ∧ s'.takes = s.takes := by
  unfold reclaimCompletedReqs at h
  rw [k.one] at h
  obtain ⟨io₁, h₁, h⟩ := bind_eq_ok.mp h
  cases h₁
  obtain ⟨worker', hr, h⟩ := bind_eq_ok.mp h
  rw [k.worker] at hr
  cases h
  have hself : Function.update io.ioWorkers 0 worker' 0 = worker' := Function.update_self _ _ _
  exact ⟨_, .quiet (.reclaim hr) rfl rfl rfl rfl ⟨rfl, rfl⟩, ⟨k.one, hself⟩, rfl, rfl⟩

theorem OneWorker.scheduleCalls (cfg : QueueConfig) {io io' : IoDev} {now : Nat} {calls : List ReleaseCall}
    (k : OneWorker io s) (h : scheduleCalls sqid now calls io = .ok io') :
    ∃ s', QueueServed cfg sqid s s' ∧ OneWorker io' s' ∧ s'.sq = s.sq ∧ s'.takes = s.takes := by
  induction calls generalizing io s with
  | nil =>
    cases h
    exact ⟨s, .refl s, k, rfl, rfl⟩
  | cons c rest ih =>
    obtain ⟨io₁, h₁, hrest⟩ := bind_eq_ok.mp h
    rcases k.placeWork h₁ with ⟨-, hsame⟩ | ⟨worker', hp, hone, hworker⟩
    · rw [hsame] at hrest
      exact ih k hrest
    · have hstep : QueueServed cfg sqid s (s.schedule (.scheduleInternalOperation sqid _ _ _ now) worker') :=
        .quiet (.schedule sqid _ _ _ now hp) rfl rfl rfl rfl ⟨rfl, rfl⟩
      obtain ⟨s', hrun, k', hsq, htakes⟩ := ih (s := s.schedule _ worker') ⟨hone, hworker⟩ hrest
      exact ⟨s', hstep.trans hrun, k', hsq, htakes⟩

/-- `__enqueue_io_req` for the next command: it is taken off, whether or not an entry is free. -/
theorem OneWorker.enqueue {io io' : IoDev} (k : OneWorker io s) {wall now : Nat} {ret : NvmevResult}
    (hc : (s.results sqid).length < (s.sent sqid).length)
    (h : enqueueIoReq io sqid (cfg.cqid sqid) (s.next cfg sqid) (s.command cfg sqid).commandId wall now ret =
      .ok io') :
    ∃ s' r, QueueServed cfg sqid s s' ∧ OneWorker io' s' ∧ s'.sq = s.sq ∧
      s'.takes = s.takes ++ [(sqid, r)] ∧ ∀ ret', r = some ret' → ret = ret' := by
  unfold enqueueIoReq at h
  rcases k.placeWork h with ⟨hp, rfl⟩ | ⟨worker', hp, hone, hworker⟩
  · exact ⟨_, none, .take (.drop sqid wall now ret hc hp) rfl rfl rfl rfl ⟨rfl, rfl⟩, ⟨k.one, k.worker⟩, rfl,
      rfl, fun _ hr => absurd hr.symm (Option.some_ne_none _)⟩
  · exact ⟨_, some ret, .take (.dispatch sqid wall now ret hc hp) rfl rfl rfl rfl ⟨rfl, rfl⟩,
      ⟨hone, hworker⟩, rfl, rfl, fun _ hr => Option.some.inj hr⟩

theorem QueueOf.congr {s' : Exchange} {qid : Nat} {sq : SubmissionQueue} (q : QueueOf cfg s qid sq)
    (h : s'.sq = s.sq) : QueueOf cfg s' qid sq := ⟨q.size, q.cqid, q.slots.trans (congrFun h qid).symm⟩

/-- The handler has put `cmd` into the slot of the next command. -/
theorem DispatcherOf.rewrite {d d' : Dispatcher σ} (k : DispatcherOf cfg s d) {sq : SubmissionQueue}
    (hsq : d.sqes sqid = some sq) {cmd : NvmeRwCommand}
    (hcmd : cmd = { s.command cfg sqid with slba := cmd.slba }) (hio : d'.io = d.io)
    (hsqes : d'.sqes = Function.update d.sqes sqid
      (some { sq with sq := Function.update sq.sq (s.next cfg sqid) cmd })) :
    DispatcherOf cfg (s.rewrite cfg sqid cmd.slba) d' := by
  have hslots : (s.rewrite cfg sqid cmd.slba).sq =
      Function.update s.sq sqid (Function.update (s.sq sqid) (s.next cfg sqid) cmd) := by
    unfold Exchange.rewrite Exchange.setSlot
    rw [← hcmd]
  refine ⟨⟨?_, ?_⟩, ?_⟩
  · rw [hio]
    exact k.io.one
  · rw [hio]
    exact k.io.worker
  · intro qid sq' hsq'
    rw [hsqes] at hsq'
    by_cases hqid : qid = sqid
    · subst hqid
      have q := k.queues qid sq hsq
      rw [Function.update_self] at hsq'
      obtain rfl := Option.some.inj hsq'
      refine ⟨q.size, q.cqid, ?_⟩
      rw [hslots, Function.update_self, q.slots]
    · rw [Function.update_of_ne hqid] at hsq'
      have q := k.queues qid sq' hsq'
      refine ⟨q.size, q.cqid, ?_⟩
      rw [hslots, Function.update_of_ne hqid]
      exact q.slots

theorem logged_ok {i : Nat} {t : Logged σ} {cmd : NvmeRwCommand} {sqid wall : Nat} {ret : NvmevResult}
    {o : HandlerOutcome (Logged σ)} (h : logged proc i t cmd sqid wall ret = .ok o) :
    (∃ o₀, proc i t.1 cmd sqid wall ret = .ok o₀ ∧ o.cmd = o₀.cmd) ∧
      o.ftl.2 = if o.accepted then t.2 ++ [(sqid, ⟨cmd, o.ret⟩)] else t.2 := by
  obtain ⟨o₀, ho₀, h⟩ := bind_eq_ok.mp h
  cases h
  exact ⟨⟨o₀, ho₀, rfl⟩, rfl⟩

/-- A call of `__nvmev_proc_io` for the next command of a queue takes it off, or leaves it there. -/
theorem nvmevProcIo_exchange (hproc : RewritesSlba proc) (hs : SlotsHold cfg s) {d d' : Dispatcher (Logged σ)}
    (k : DispatcherOf cfg s d) (kl : Records s d.ftl.2) {wall now : Nat} {size : Option Nat}
    (hc : (s.results sqid).length < (s.sent sqid).length)
    (h : nvmevProcIo (logged proc) d sqid (s.next cfg sqid) wall now = .ok (d', size)) :
    ∃ s', QueueServed cfg sqid s s' ∧ DispatcherOf cfg s' d' ∧ Records s' d'.ftl.2 ∧
      (s'.results sqid).length = (s.results sqid).length + if size.isSome then 1 else 0 := by
  unfold nvmevProcIo at h
  cases hsq : d.sqes sqid with
  | none =>
    rw [hsq] at h
    cases h
  | some sq =>
    have q := k.queues sqid sq hsq
    rw [hsq] at h
    obtain ⟨o, ho, h⟩ := bind_eq_ok.mp h
    obtain ⟨io₁, hio, h⟩ := bind_eq_ok.mp h
    obtain ⟨⟨o₀, ho₀, hcmd₀⟩, hlog⟩ := logged_ok ho
    -- the handler's own calls, and what it leaves in the slot
    obtain ⟨s₁, hrun₁, k₁, hsq₁, htakes₁⟩ := OneWorker.scheduleCalls cfg k.io hio
    have hresults₁ := Exchange.results_congr htakes₁
    have hnext₁ : s₁.next cfg sqid = s.next cfg sqid := by
      unfold Exchange.next
      rw [hresults₁]
    have hgiven : sq.sq (s.next cfg sqid) = s.command cfg sqid := congrFun q.slots _
    have hcommand₁ : s₁.command cfg sqid = s.command cfg sqid := by
      unfold Exchange.command
      rw [hsq₁, hnext₁]
    have hheld : HeldAs (s₁.command cfg sqid) o.cmd := by
      rw [hcommand₁, ← hgiven, hcmd₀]
      exact hproc _ _ _ _ _ _ _ ho₀
    have hc₁ : (s₁.results sqid).length < (s₁.sent sqid).length := by
      rw [hresults₁, hrun₁.sent]
      exact hc
    have hrun₂ : QueueServed cfg sqid s (s₁.rewrite cfg sqid o.cmd.slba) :=
      hrun₁.trans (.quiet (.rewrite sqid o.cmd.slba hc₁ hheld.slba) rfl rfl rfl rfl ⟨rfl, rfl⟩)
    have kd : DispatcherOf cfg s₁ { d with io := io₁ } :=
      ⟨k₁, fun qid sq hsq => (k.queues qid sq hsq).congr hsq₁⟩
    have kl₂ : Records (s₁.rewrite cfg sqid o.cmd.slba) d.ftl.2 := kl.congr hrun₂.sends htakes₁
    rw [← hnext₁] at h
    have kr : DispatcherOf cfg (s₁.rewrite cfg sqid o.cmd.slba) (⟨io₁, o.ftl, _⟩ : Dispatcher (Logged σ)) :=
      kd.rewrite hsq hheld.rest rfl rfl
    cases hacc : o.accepted with
    | false =>
      rw [hacc, if_pos rfl] at h
      cases h
      rw [hacc, if_neg (by decide)] at hlog
      refine ⟨_, hrun₂, kr, ?_, congrArg (fun r => (r sqid).length) hresults₁⟩
      rw [hlog]
      exact kl₂
    | true =>
      rw [hacc, if_neg (by simp)] at h
      rw [hacc, if_pos rfl, hgiven] at hlog
      obtain ⟨io₂, henq, h⟩ := bind_eq_ok.mp h
      obtain ⟨io₃, hrec, h⟩ := bind_eq_ok.mp h
      cases h
      have hcommand : (s₁.rewrite cfg sqid o.cmd.slba).command cfg sqid = o.cmd := by
        refine Eq.trans ?_ hheld.rest.symm
        change Function.update s₁.sq sqid _ sqid (s₁.next cfg sqid) = _
        rw [Function.update_self, Function.update_self]
      rw [← hcommand] at henq
      dsimp only at henq
      rw [q.cqid] at henq
      obtain ⟨s₃, r, hrun₃, k₃, hsq₃, htakes₃, hr₃⟩ := kr.io.enqueue hc₁ henq
      obtain ⟨s₄, hrun₄, k₄, hsq₄, htakes₄⟩ := OneWorker.reclaim cfg k₃ hrec
      -- the log has grown by the answer that the work was given
      have hsent : ∃ cmd, ((s₁.rewrite cfg sqid o.cmd.slba).sent sqid)[
          ((s₁.rewrite cfg sqid o.cmd.slba).results sqid).length]? = some cmd ∧
          HeldAs cmd (s.command cfg sqid) := by
        rw [hrun₂.sent]
        change ∃ cmd, (s.sent sqid)[(s₁.results sqid).length]? = some cmd ∧ _
        rw [hresults₁]
        exact hs.next_command hc
      have kl₃ : Records s₃ (d.ftl.2 ++ [(sqid, ⟨s.command cfg sqid, o.ret⟩)]) :=
        kl₂.take hrun₃.sends htakes₃ hr₃ hsent
      refine ⟨s₄, (hrun₂.trans hrun₃).trans hrun₄, ⟨k₄, ?_⟩, ?_, ?_⟩
      · exact fun qid sq₂ hsq₂ => (kr.queues qid sq₂ hsq₂).congr (hsq₄.trans hsq₃)
      · rw [hlog]
        exact kl₃.congr hrun₄.sends htakes₄
      · have hlast : s₃.results sqid = (s₁.rewrite cfg sqid o.cmd.slba).results sqid ++ [r] := by
          unfold Exchange.results
          rw [htakes₃]
          exact ofQueue_snoc_self
        rw [Exchange.results_congr htakes₄, hlast, List.length_append]
        exact congrArg (fun r => (r sqid).length + 1) hresults₁

theorem DispatcherOf.updateSq {d : Dispatcher σ} (k : DispatcherOf cfg s d) (sqid : Nat)
    {f : SubmissionQueue → SubmissionQueue}
    (hf : ∀ sq, (f sq).queueSize = sq.queueSize ∧ (f sq).cqid = sq.cqid ∧ (f sq).sq = sq.sq) :
    DispatcherOf cfg s (d.updateSq sqid f) := by
  refine ⟨k.io, fun qid sq hsq => ?_⟩
  change Function.update d.sqes sqid ((d.sqes sqid).map f) qid = some sq at hsq
  by_cases hqid : qid = sqid
  · subst hqid
    rw [Function.update_self] at hsq
    obtain ⟨sq₀, hsq₀, rfl⟩ := Option.map_eq_some_iff.mp hsq
    have q := k.queues qid sq₀ hsq₀
    obtain ⟨hsize, hcqid, hslots⟩ := hf sq₀
    exact ⟨hsize.trans q.size, hcqid.trans q.cqid, hslots.trans q.slots⟩
  · rw [Function.update_of_ne hqid] at hsq
    exact k.queues qid sq hsq

theorem Exchange.next_lt (cfg : QueueConfig) (s : Exchange) (qid : Nat) : s.next cfg qid < cfg.sqSize qid :=
  Nat.mod_lt _ (cfg.sqPos qid)

theorem procIoLoop_exchange (hproc : RewritesSlba proc) (hr : ExchangeReachable cfg s)
    {d d' : Dispatcher (Logged σ)} (k : DispatcherOf cfg s d) (kl : Records s d.ftl.2)
    {n seq seq' : Nat} {wall now : Nat → Nat}
    (hn : (s.results sqid).length + n ≤ (s.sent sqid).length)
    (h : procIoLoop (logged proc) sqid (cfg.sqSize sqid) wall now n seq (s.next cfg sqid) d =
      .ok (d', seq')) :
    ∃ s', QueueServed cfg sqid s s' ∧ DispatcherOf cfg s' d' ∧ Records s' d'.ftl.2 ∧
      (s'.results sqid).length + seq = (s.results sqid).length + seq' := by
  induction n generalizing s d seq with
  | zero =>
    cases h
    exact ⟨s, .refl s, k, kl, rfl⟩
  | succ n ih =>
    obtain ⟨⟨d₁, size⟩, h₁, hrest⟩ := bind_eq_ok.mp h
    obtain ⟨s₁, hrun, k₁, kl₁, hlen⟩ := nvmevProcIo_exchange hproc hr.ok.slots k kl (by omega) h₁
    cases size with
    | none =>
      cases hrest
      exact ⟨s₁, hrun, k₁, kl₁, by rw [hlen]; rfl⟩
    | some ioSize =>
      have hlen : (s₁.results sqid).length = (s.results sqid).length + 1 := hlen
      have hnext : (if s.next cfg sqid + 1 = cfg.sqSize sqid then 0 else s.next cfg sqid + 1) =
          s₁.next cfg sqid := by
        rw [next_slot (s.next_lt cfg sqid)]
        unfold Exchange.next
        rw [hlen, Nat.mod_add_mod]
      dsimp only at hrest
      rw [hnext] at hrest
      have k₂ := k₁.updateSq sqid (f := (·.dispatched ioSize)) (fun _ => ⟨rfl, rfl, rfl⟩)
      obtain ⟨s', hrun', k', kl', hlen'⟩ :=
        ih (hr.dispatcher hrun.run) k₂ kl₁ (by rw [hrun.sent]; omega) hrest
      exact ⟨s', hrun.trans hrun', k', kl', by omega⟩

/-- Between two calls the old doorbell stands at the next command, and the new one behind the
last command sent. A call then takes commands off as a run does, and gives the doorbell of the
queue after it. -/
theorem nvmevProcIoSq_exchange (hproc : RewritesSlba proc) (hr : ExchangeReachable cfg s)
    {d d' : Dispatcher (Logged σ)} (k : DispatcherOf cfg s d) (kl : Records s d.ftl.2) {latest : Nat}
    {wall now : Nat → Nat}
    (h : nvmevProcIoSq (logged proc) d sqid ((s.sent sqid).length % cfg.sqSize sqid) (s.next cfg sqid) wall
      now = .ok (d', latest)) :
    ∃ s', QueueServed cfg sqid s s' ∧ DispatcherOf cfg s' d' ∧ Records s' d'.ftl.2 ∧
      latest = s'.next cfg sqid := by
  unfold nvmevProcIoSq at h
  cases hsq : d.sqes sqid with
  | none =>
    rw [hsq] at h
    cases h
    exact ⟨s, .refl s, k, kl, rfl⟩
  | some sq =>
    have q := k.queues sqid sq hsq
    rw [hsq] at h
    obtain ⟨⟨d₁, seq⟩, hloop, hrest⟩ := bind_eq_ok.mp h
    -- the loop runs over the commands that wait
    have hwalk : walk (cfg.sqSize sqid) (s.next cfg sqid) ((s.sent sqid).length % cfg.sqSize sqid) =
        (s.sent sqid).length - (s.results sqid).length := by
      have hbehind := hr.ok.slots.behind sqid
      have hwindow := hr.ok.slots.window sqid
      have hw := walk_mod (cfg.sqPos sqid) (s.results sqid).length
        ((s.sent sqid).length - (s.results sqid).length) (by omega)
      rwa [Nat.add_sub_cancel' hbehind] at hw
    rw [q.size] at hloop hrest
    have hloop' : procIoLoop (logged proc) sqid (cfg.sqSize sqid) wall now
        ((s.sent sqid).length - (s.results sqid).length) 0 (s.next cfg sqid) d = .ok (d₁, seq) := by
      rw [← hwalk]
      exact hloop
    obtain ⟨s', hrun, k', kl', hlen⟩ :=
      procIoLoop_exchange hproc hr k kl (by have := hr.ok.slots.behind sqid; omega) hloop'
    have hdiv : divisor (cfg.sqSize sqid) = .ok (cfg.sqSize sqid) :=
      if_neg (Nat.pos_iff_ne_zero.mp (cfg.sqPos sqid))
    dsimp only at hrest
    rw [hdiv] at hrest
    cases hrest
    refine ⟨s', hrun, k'.updateSq sqid (fun _ => ⟨rfl, rfl, rfl⟩), kl', ?_⟩
    have hlen : (s'.results sqid).length = (s.results sqid).length + seq := hlen
    unfold Exchange.next
    rw [hlen, Nat.mod_add_mod]

/-- The worker's postings to the tables of the device are those of the exchange. -/
theorem performAll_exchange {actions : List WorkerAction} {v v' : NvmevDev}
    (hcqes : ∀ cqid cq, v.cqes cqid = some cq → cq = s.cqes cqid) (h : performAll actions v = .ok v')
    (cqid : Nat) (cq : CompletionQueue) (hcq : v'.cqes cqid = some cq) :
    cq = (actions.foldl Exchange.post s).cqes cqid := by
  induction actions generalizing s v with
  | nil =>
    cases h
    exact hcqes cqid cq hcq
  | cons action rest ih =>
    obtain ⟨v₁, h₁, hrest⟩ := bind_eq_ok.mp h
    refine ih ?_ hrest
    intro i cq₁ hcq₁
    cases action with
    | performIo sqid sqEntry =>
      obtain ⟨_, _, h₁⟩ := bind_eq_ok.mp h₁
      cases h₁
      exact hcqes i cq₁ hcq₁
    | bufferRelease writeBuffer bytes =>
      cases h₁
      exact hcqes i cq₁ hcq₁
    | fillCqResult w =>
      obtain ⟨cq₀, hcq₀, h₁⟩ := bind_eq_ok.mp h₁
      rw [deref_eq_ok] at hcq₀
      cases h₁
      change Function.update v.cqes w.cqid _ i = some cq₁ at hcq₁
      change cq₁ = Function.update s.cqes w.cqid _ i
      by_cases hi : i = w.cqid
      · subst hi
        rw [Function.update_self] at hcq₁ ⊢
        obtain rfl := Option.some.inj hcq₁
        rw [hcqes w.cqid cq₀ hcq₀]
      · rw [Function.update_of_ne hi] at hcq₁ ⊢
        exact hcqes i cq₁ hcq₁

/-- The worker's postings change no other table and no doorbell. -/
theorem performAll_rest {actions : List WorkerAction} {v v' : NvmevDev} (h : performAll actions v = .ok v') :
    v'.sqes = v.sqes ∧ v'.dbs = v.dbs ∧ v'.oldDbs = v.oldDbs := by
  induction actions generalizing v with
  | nil =>
    cases h
    exact ⟨rfl, rfl, rfl⟩
  | cons action rest ih =>
    obtain ⟨v₁, h₁, hrest⟩ := bind_eq_ok.mp h
    obtain ⟨hsqs, hdbs, hold⟩ := ih hrest
    cases action with
    | performIo sqid sqEntry =>
      obtain ⟨_, _, h₁⟩ := bind_eq_ok.mp h₁
      cases h₁
      exact ⟨hsqs, hdbs, hold⟩
    | bufferRelease writeBuffer bytes =>
      cases h₁
      exact ⟨hsqs, hdbs, hold⟩
    | fillCqResult w =>
      obtain ⟨_, _, h₁⟩ := bind_eq_ok.mp h₁
      cases h₁
      exact ⟨hsqs, hdbs, hold⟩

/-- The device, the cursor and the clock of its worker, and the hosts with what they have sent. -/
structure Served (σ : Type) where
  dev : Device σ
  curr : Nat
  clock : Nat
  hosts : Nat → HostCq
  sends : List (Nat × NvmeRwCommand)

namespace Served
variable (v : Served σ)

/-- The command goes to the slot of the tail doorbell, which moves on. -/
def submit (qid : Nat) (sq : SubmissionQueue) (cmd : NvmeRwCommand) : Served σ :=
  let tail := v.dev.adm.dbs (qid * 2)
  let adm := v.dev.adm.setSq qid (some { sq with sq := Function.update sq.sq tail cmd })
  { v with
    dev := ({ v.dev with adm := adm } : Device σ).setDb (qid * 2) ((tail + 1) % sq.queueSize)
    sends := v.sends ++ [(qid, cmd)] }

def workerTurn (now : Nat) : IoWorker × Nat × List WorkerAction :=
  NVMeVirt.workerTurn (v.dev.io.ioWorkers 0) v.curr now

def turn (now : Nat) (adm' : NvmevDev) : Served σ :=
  { v with
    dev := { v.dev with adm := adm', io := v.dev.io.setWorker 0 (v.workerTurn now).1 }
    curr := (v.workerTurn now).2.1
    clock := now }

end Served

/-- A host fills no ring up, and has no more outstanding on a completion queue than that holds. The
admin queue rests. -/
inductive ServedStep (cfg : QueueConfig) (proc : ProcIoCmd σ) (v : Served σ) : Served σ → Prop where
  | submit (qid : Nat) (cmd : NvmeRwCommand) {sq : SubmissionQueue} (hsq : v.dev.adm.sqes qid = some sq)
      (hslot : (v.dev.adm.dbs (qid * 2) + 1) % sq.queueSize ≠ v.dev.adm.oldDbs (qid * 2))
      (hroom : v.sends.countP (fun p => cfg.cqid p.1 = sq.cqid) <
        (v.hosts sq.cqid).taken.length + (cfg.cq sq.cqid).queueSize) :
      ServedStep cfg proc v (v.submit qid sq cmd)
  | acknowledge (cqid value : Nat) : ServedStep cfg proc v { v with dev := v.dev.setDb (cqid * 2 + 1) value }
  | dispatch (wall now : Nat → Nat → Nat) {dev' : Device σ} (hadmin : v.dev.adm.dbs 0 = v.dev.adm.oldDbs 0)
      (h : nvmevProcDbs proc wall now v.dev = .ok dev') : ServedStep cfg proc v { v with dev := dev' }
  | start (h : v.curr = noEntry) : ServedStep cfg proc v { v with curr := (v.dev.io.ioWorkers 0).ioSeq }
  | turn (h : v.curr ≠ noEntry) (now : Nat) (hnow : v.clock ≤ now) {adm' : NvmevDev}
      (hp : performAll (v.workerTurn now).2.2 v.dev.adm = .ok adm') : ServedStep cfg proc v (v.turn now adm')
  | poll (cqid : Nat) {cq : CompletionQueue} (hcq : v.dev.adm.cqes cqid = some cq) :
      ServedStep cfg proc v { v with hosts := Function.update v.hosts cqid ((v.hosts cqid).poll cq) }

/-- Queues just created, and a work queue just initialised. -/
structure ServedInit (cfg : QueueConfig) (dev : Device σ) : Prop where
  io : dev.io = nvmevIoWorkerInit 1
  sqs : ∀ qid sq, dev.adm.sqes qid = some sq → sq.queueSize = cfg.sqSize qid ∧ sq.cqid = cfg.cqid qid ∧
    dev.adm.dbs (qid * 2) = 0 ∧ dev.adm.oldDbs (qid * 2) = 0
  cqs : ∀ cqid cq, dev.adm.cqes cqid = some cq → cq = cfg.cq cqid

def Served.init (dev : Device σ) : Served σ := ⟨dev, noEntry, 0, fun _ => HostCq.start, []⟩

def ServedReachable (cfg : QueueConfig) (proc : ProcIoCmd σ) (v : Served σ) : Prop :=
  ∃ dev, ServedInit cfg dev ∧ Relation.ReflTransGen (ServedStep cfg proc) (Served.init dev) v

/-- The exchange that the device carries out, its handlers logging what they answer. -/
structure Serves (cfg : QueueConfig) (v : Served (Logged σ)) (s : Exchange) : Prop where
  dispatcher : DispatcherOf cfg s v.dev.dispatcher
  curr : v.curr = s.trace.curr
  clock : v.clock = s.trace.clock
  cqes : ∀ cqid cq, v.dev.adm.cqes cqid = some cq → cq = s.cqes cqid
  hosts : v.hosts = s.hosts
  sends : v.sends = s.sends
  log : Records s v.dev.ftl.2
  dbs : ∀ qid, (v.dev.adm.sqes qid).isSome → v.dev.adm.dbs (qid * 2) = (s.sent qid).length % cfg.sqSize qid ∧
    v.dev.adm.oldDbs (qid * 2) = s.next cfg qid

theorem ServedReachable.step {v v' : Served σ} (h : ServedReachable cfg proc v)
    (hs : ServedStep cfg proc v v') : ServedReachable cfg proc v' := by
  obtain ⟨dev, hinit, hrun⟩ := h
  exact ⟨dev, hinit, hrun.tail hs⟩

variable {v v' : Served (Logged σ)} {dev dev' : Device (Logged σ)}

theorem Serves.init (h : ServedInit cfg dev) (hlog : dev.ftl.2 = []) :
    ∃ s, ExchangeReachable cfg s ∧ Serves cfg (Served.init dev) s := by
  refine ⟨Exchange.init cfg fun qid => ((dev.adm.sqes qid).map SubmissionQueue.sq).getD fun _ => readSeven,
    ⟨_, .refl⟩, ⟨⟨?_, ?_⟩, ?_⟩, rfl, rfl, h.cqs, rfl, rfl, ?_, ?_⟩
  · exact congrArg IoDev.nrIoWorkers h.io
  · exact congrArg (IoDev.ioWorkers · 0) h.io
  · intro qid sq hsq
    obtain ⟨hsize, hcqid, -⟩ := h.sqs qid sq hsq
    refine ⟨hsize, hcqid, ?_⟩
    have hsq : dev.adm.sqes qid = some sq := hsq
    unfold Exchange.init
    dsimp only
    rw [hsq]
    rfl
  · change Records _ dev.ftl.2
    rw [hlog]
    exact ⟨fun _ => rfl, fun _ n _ hn => absurd hn.symm (Option.some_ne_none _),
      fun _ n _ hn => absurd hn.symm (Option.some_ne_none _)⟩
  · intro qid hqid
    obtain ⟨sq, hsq⟩ := Option.isSome_iff_exists.mp hqid
    obtain ⟨-, -, hdb, hold⟩ := h.sqs qid sq hsq
    exact ⟨hdb.trans (Nat.zero_mod _).symm, hold.trans (Nat.zero_mod _).symm⟩

theorem Serves.submit (k : Serves cfg v s) (hs : SlotsHold cfg s) {qid : Nat} {sq : SubmissionQueue}
    (cmd : NvmeRwCommand) (hsq : v.dev.adm.sqes qid = some sq)
    (hslot : (v.dev.adm.dbs (qid * 2) + 1) % sq.queueSize ≠ v.dev.adm.oldDbs (qid * 2))
    (hroom : v.sends.countP (fun p => cfg.cqid p.1 = sq.cqid) <
      (v.hosts sq.cqid).taken.length + (cfg.cq sq.cqid).queueSize) :
    ExchangeStep cfg s (s.submit cfg qid cmd) ∧ Serves cfg (v.submit qid sq cmd) (s.submit cfg qid cmd) := by
  have q := k.dispatcher.queues qid sq hsq
  obtain ⟨hdb, hold⟩ := k.dbs qid (by rw [hsq]; rfl)
  have hself : (s.submit cfg qid cmd).sent qid = s.sent qid ++ [cmd] := ofQueue_snoc_self
  have hother : ∀ i, i ≠ qid → (s.submit cfg qid cmd).sent i = s.sent i :=
    fun i hi => ofQueue_snoc_other (Ne.symm hi)
  rw [hdb, hold, q.size, Nat.mod_add_mod] at hslot
  rw [q.cqid, k.sends, k.hosts] at hroom
  refine ⟨.submit qid cmd ?_ hroom, ⟨⟨k.dispatcher.io.one, k.dispatcher.io.worker⟩, ?_⟩, k.curr, k.clock,
    k.cqes, k.hosts, congrArg (· ++ _) k.sends, ?_, ?_⟩
  · have hwindow := hs.window qid
    rcases Nat.lt_or_ge ((s.sent qid).length + 1) ((s.results qid).length + cfg.sqSize qid) with h | h
    · exact h
    · refine absurd ?_ hslot
      rw [show (s.sent qid).length + 1 = (s.results qid).length + cfg.sqSize qid by omega, Nat.add_mod_right]
      rfl
  · intro i sq₁ hsq₁
    change Function.update v.dev.adm.sqes qid _ i = some sq₁ at hsq₁
    by_cases hi : i = qid
    · subst hi
      rw [Function.update_self] at hsq₁
      obtain rfl := Option.some.inj hsq₁
      refine ⟨q.size, q.cqid, ?_⟩
      change Function.update sq.sq _ cmd = Function.update s.sq i _ i
      rw [Function.update_self, hdb, q.slots]
    · rw [Function.update_of_ne hi] at hsq₁
      have q₁ := k.dispatcher.queues i sq₁ hsq₁
      exact ⟨q₁.size, q₁.cqid, q₁.slots.trans (Function.update_of_ne hi _ _).symm⟩
  · refine k.log.mono ?_ rfl
    intro i n c hn
    by_cases hi : i = qid
    · subst hi
      rw [hself]
      exact getElem?_kept hn
    · rwa [hother i hi]
  · intro i hi
    change Function.update v.dev.adm.dbs (qid * 2) _ (i * 2) = _ ∧ _
    by_cases hiq : i = qid
    · subst hiq
      rw [Function.update_self, hself, List.length_append, List.length_singleton, hdb, q.size,
        Nat.mod_add_mod]
      exact ⟨rfl, hold⟩
    · have hold_i : (v.dev.adm.sqes i).isSome := by
        change (Function.update v.dev.adm.sqes qid _ i).isSome at hi
        rwa [Function.update_of_ne hiq] at hi
      rw [Function.update_of_ne (by omega), hother i hiq]
      exact k.dbs i hold_i

/-- Only counters of submission queues and old head doorbells differ. -/
structure Counted (adm adm' : NvmevDev) : Prop where
  sqs : ∀ qid sq', adm'.sqes qid = some sq' → ∃ sq, adm.sqes qid = some sq ∧
    sq'.queueSize = sq.queueSize ∧ sq'.cqid = sq.cqid ∧ sq'.sq = sq.sq
  cqes : adm'.cqes = adm.cqes
  dbs : adm'.dbs = adm.dbs
  oldDbs : ∀ qid, adm'.oldDbs (qid * 2) = adm.oldDbs (qid * 2)

theorem Counted.refl (adm : NvmevDev) : Counted adm adm :=
  ⟨fun _ sq h => ⟨sq, h, rfl, rfl, rfl⟩, rfl, rfl, fun _ => rfl⟩

theorem Counted.trans {adm adm₁ adm' : NvmevDev} (h : Counted adm adm₁) (h' : Counted adm₁ adm') :
    Counted adm adm' := by
  refine ⟨?_, h'.cqes.trans h.cqes, h'.dbs.trans h.dbs, fun qid => (h'.oldDbs qid).trans (h.oldDbs qid)⟩
  intro qid sq' hsq'
  obtain ⟨sq₁, hsq₁, hsize₁, hcqid₁, hslots₁⟩ := h'.sqs qid sq' hsq'
  obtain ⟨sq, hsq, hsize, hcqid, hslots⟩ := h.sqs qid sq₁ hsq₁
  exact ⟨sq, hsq, hsize₁.trans hsize, hcqid₁.trans hcqid, hslots₁.trans hslots⟩

theorem finishOne_counted {sqid : Nat} {adm adm' : NvmevDev} (h : finishOne sqid adm = .ok adm') :
    Counted adm adm' := by
  obtain ⟨id, -, h⟩ := bind_eq_ok.mp h
  cases h
  refine ⟨?_, rfl, rfl, fun _ => rfl⟩
  intro qid sq' hsq'
  change Function.update adm.sqes id ((adm.sqes id).map SubmissionQueue.finished) qid = some sq' at hsq'
  by_cases hq : qid = id
  · subst hq
    rw [Function.update_self] at hsq'
    obtain ⟨sq, hsq, rfl⟩ := Option.map_eq_some_iff.mp hsq'
    exact ⟨sq, hsq, rfl, rfl, rfl⟩
  · rw [Function.update_of_ne hq] at hsq'
    exact ⟨sq', hsq', rfl, rfl, rfl⟩

theorem procIoCqLoop_counted {cq : CompletionQueue} {newDb fuel i : Nat} {adm adm' : NvmevDev}
    (h : procIoCqLoop cq newDb fuel i adm = .ok adm') : Counted adm adm' := by
  induction fuel generalizing i adm with
  | zero => cases h
  | succ fuel ih =>
    unfold procIoCqLoop at h
    split at h
    · cases h
      exact .refl _
    · obtain ⟨cqe, -, h⟩ := bind_eq_ok.mp h
      split at h
      · exact ih h
      · obtain ⟨adm₁, h₁, h⟩ := bind_eq_ok.mp h
        exact (finishOne_counted h₁).trans (ih h)

theorem setOldDb_counted (adm : NvmevDev) (cqid value : Nat) :
    Counted adm (adm.setOldDb (cqid * 2 + 1) value) :=
  ⟨fun _ sq h => ⟨sq, h, rfl, rfl, rfl⟩, rfl, rfl, fun _ => NvmevDev.setOldDb_other adm value (by omega)⟩

/-- The head doorbell of a completion queue. -/
theorem procDbsCq_counted {cqid : Nat} (h : procDbsCq cqid dev = .ok dev') :
    Counted dev.adm dev'.adm ∧ dev'.io = dev.io ∧ dev'.ftl = dev.ftl := by
  unfold procDbsCq at h
  cases hcq : dev.adm.cqes cqid with
  | none =>
    rw [hcq] at h
    cases h
    exact ⟨.refl _, rfl, rfl⟩
  | some cq =>
    rw [hcq] at h
    dsimp only at h
    split at h
    · cases h
      exact ⟨.refl _, rfl, rfl⟩
    · obtain ⟨adm, hio, h⟩ := bind_eq_ok.mp h
      cases h
      unfold nvmevProcIoCq at hio
      rw [hcq] at hio
      exact ⟨(procIoCqLoop_counted hio).trans (setOldDb_counted adm cqid _), rfl, rfl⟩

theorem Serves.counted (k : Serves cfg { v with dev := dev } s) (h : Counted dev.adm dev'.adm)
    (hio : dev'.io = dev.io) (hftl : dev'.ftl = dev.ftl) : Serves cfg { v with dev := dev' } s := by
  refine ⟨⟨?_, ?_⟩, k.curr, k.clock, ?_, k.hosts, k.sends, ?_, ?_⟩
  · change OneWorker dev'.io s
    rw [hio]
    exact k.dispatcher.io
  · intro qid sq' hsq'
    obtain ⟨sq, hsq, hsize, hcqid, hslots⟩ := h.sqs qid sq' hsq'
    have q := k.dispatcher.queues qid sq hsq
    exact ⟨hsize.trans q.size, hcqid.trans q.cqid, hslots.trans q.slots⟩
  · change ∀ cqid cq, dev'.adm.cqes cqid = some cq → _
    rw [h.cqes]
    exact k.cqes
  · change Records s dev'.ftl.2
    rw [hftl]
    exact k.log
  · intro qid hqid
    obtain ⟨sq', hsq'⟩ := Option.isSome_iff_exists.mp hqid
    obtain ⟨sq, hsq, -⟩ := h.sqs qid sq' hsq'
    have hdbs := k.dbs qid (Option.isSome_iff_exists.mpr ⟨sq, hsq⟩)
    change dev'.adm.dbs _ = _ ∧ dev'.adm.oldDbs _ = _
    rw [h.dbs, h.oldDbs]
    exact hdbs

/-- The turn of one submission queue in the loop of `nvmev_proc_dbs`. -/
theorem procDbsSq_serves (hproc : RewritesSlba proc) (hr : ExchangeReachable cfg s)
    (k : Serves cfg { v with dev := dev } s) {qid : Nat} {wall now : Nat → Nat → Nat}
    (h : procDbsSq (logged proc) wall now qid dev = .ok dev') :
    ∃ s', DispatcherRun cfg s s' ∧ Serves cfg { v with dev := dev' } s' := by
  unfold procDbsSq at h
  cases hsq : dev.adm.sqes qid with
  | none =>
    rw [hsq] at h
    cases h
    exact ⟨s, .refl, k⟩
  | some sq =>
    rw [hsq] at h
    dsimp only at h
    split at h
    · cases h
      exact ⟨s, .refl, k⟩
    · obtain ⟨⟨d, latest⟩, hio, h⟩ := bind_eq_ok.mp h
      cases h
      obtain ⟨hdb, hold⟩ := k.dbs qid (Option.isSome_iff_exists.mpr ⟨sq, hsq⟩)
      have hquiet : QuietRun .any (fun _ => noEntry) dev.adm (dev.adm.withSqs d) dev.io d.io :=
        nvmevProcIoSq_run (permits_any _) hio
      rw [show dev.adm.dbs (qid * 2) = _ from hdb, show dev.adm.oldDbs (qid * 2) = _ from hold] at hio
      obtain ⟨s', hrun, kd, kl, hlatest⟩ := nvmevProcIoSq_exchange hproc hr k.dispatcher k.log hio
      refine ⟨s', hrun.run, kd, k.curr.trans hrun.cursor.1.symm, k.clock.trans hrun.cursor.2.symm, ?_,
        k.hosts.trans hrun.hosts.symm, k.sends.trans hrun.sends.symm, kl, ?_⟩
      · rw [hrun.cqes]
        exact k.cqes
      · intro i hi
        have hi₀ : (dev.adm.sqes i).isSome := (hquiet.same.sqes_isSome i).symm.trans hi
        obtain ⟨hdb_i, hold_i⟩ := k.dbs i hi₀
        change dev.adm.dbs (i * 2) = _ ∧ Function.update dev.adm.oldDbs (qid * 2) latest (i * 2) = _
        rw [hrun.sent]
        refine ⟨hdb_i, ?_⟩
        by_cases hiq : i = qid
        · subst hiq
          rw [Function.update_self, hlatest]
        · rw [Function.update_of_ne (by omega)]
          unfold Exchange.next
          rw [hrun.others i hiq]
          exact hold_i

theorem nvmevProcDbs_serves (hproc : RewritesSlba proc) (hr : ExchangeReachable cfg s) (k : Serves cfg v s)
    {wall now : Nat → Nat → Nat} (hadmin : v.dev.adm.dbs 0 = v.dev.adm.oldDbs 0)
    (h : nvmevProcDbs (logged proc) wall now v.dev = .ok dev') :
    ∃ s', DispatcherRun cfg s s' ∧ Serves cfg { v with dev := dev' } s' := by
  have hrest : procDbsAdmin v.dev.adm = .ok (v.dev.adm.setOldDb 1 (v.dev.adm.dbs 1)) := by
    unfold procDbsAdmin procDbsAdminSq
    rw [if_pos hadmin]
    rfl
  unfold nvmevProcDbs at h
  rw [hrest, ok_bind] at h
  obtain ⟨dev₁, hsqs, hcqs⟩ := bind_eq_ok.mp h
  have hinit : Serves cfg { v with dev := { v.dev with adm := v.dev.adm.setOldDb 1 (v.dev.adm.dbs 1) } } s :=
    Serves.counted (v := v) k (setOldDb_counted _ 0 _) rfl rfl
  obtain ⟨s₁, hrun₁, k₁⟩ := upto_induct
    (fun _ t => ∃ s', DispatcherRun cfg s s' ∧ Serves cfg { v with dev := t } s') hsqs ⟨s, .refl, hinit⟩
    (by
      rintro i - t t' ⟨s', hrun, k'⟩ hi
      obtain ⟨s'', hrun', k''⟩ := procDbsSq_serves hproc (hr.dispatcher hrun) k' hi
      exact ⟨s'', hrun.trans hrun', k''⟩)
  refine ⟨s₁, hrun₁, ?_⟩
  exact upto_induct (fun _ t => Serves cfg { v with dev := t } s₁) hcqs k₁
    (by
      intro i _ t t' ht hi
      obtain ⟨hcounted, hio, hftl⟩ := procDbsCq_counted hi
      exact ht.counted hcounted hio hftl)

theorem Serves.turn (k : Serves cfg v s) (h : v.curr ≠ noEntry) {now : Nat} (hnow : v.clock ≤ now)
    {adm' : NvmevDev} (hp : performAll (v.workerTurn now).2.2 v.dev.adm = .ok adm') :
    ExchangeStep cfg s (s.turn now) ∧ Serves cfg (v.turn now adm') (s.turn now) := by
  have hworker : v.dev.io.ioWorkers 0 = s.trace.worker := k.dispatcher.io.worker
  have hturn : v.workerTurn now = workerTurn s.trace.worker s.trace.curr now := by
    unfold Served.workerTurn
    rw [hworker, k.curr]
  obtain ⟨hsqs, hdbs, hold⟩ := performAll_rest hp
  have hcqes := performAll_exchange (s := { s with trace := s.trace.turn now }) k.cqes hp
  have hrest := s.turn_rest now
  refine ⟨.turn (k.curr ▸ h) now (k.clock ▸ hnow), ?_⟩
  rw [hrest]
  refine ⟨⟨⟨k.dispatcher.io.one, ?_⟩, ?_⟩, ?_, rfl, ?_, k.hosts, k.sends, k.log.congr rfl rfl, ?_⟩
  · change Function.update v.dev.io.ioWorkers 0 (v.workerTurn now).1 0 = _
    rw [Function.update_self, hturn]
    rfl
  · intro qid sq hsq
    have hsq : adm'.sqes qid = some sq := hsq
    rw [hsqs] at hsq
    have q := k.dispatcher.queues qid sq hsq
    exact ⟨q.size, q.cqid, q.slots⟩
  · exact congrArg (·.2.1) hturn
  · intro cqid cq hcq
    rw [hturn] at hcqes
    exact hcqes cqid cq hcq
  · intro qid hqid
    change adm'.dbs _ = _ ∧ adm'.oldDbs _ = _
    rw [hdbs, hold]
    refine k.dbs qid ?_
    have hqid : (adm'.sqes qid).isSome := hqid
    rwa [hsqs] at hqid

theorem Serves.step (hproc : RewritesSlba proc) (hr : ExchangeReachable cfg s) (k : Serves cfg v s)
    (h : ServedStep cfg (logged proc) v v') : ∃ s', ExchangeReachable cfg s' ∧ Serves cfg v' s' := by
  cases h with
  | submit qid cmd hsq hslot hroom =>
    obtain ⟨hstep, k'⟩ := k.submit hr.ok.slots cmd hsq hslot hroom
    exact ⟨_, hr.step hstep, k'⟩
  | acknowledge cqid value =>
    refine ⟨s, hr, ⟨k.dispatcher.io, k.dispatcher.queues⟩, k.curr, k.clock, k.cqes, k.hosts, k.sends,
      k.log, ?_⟩
    intro qid hqid
    obtain ⟨hdb, hold⟩ := k.dbs qid hqid
    refine ⟨?_, hold⟩
    exact (Function.update_of_ne (show qid * 2 ≠ cqid * 2 + 1 by omega) _ _).trans hdb
  | dispatch wall now hadmin hd =>
    obtain ⟨s', hrun, k'⟩ := nvmevProcDbs_serves hproc hr k hadmin hd
    exact ⟨s', hr.dispatcher hrun, k'⟩
  | start hc =>
    refine ⟨_, hr.step (.start (k.curr ▸ hc)), ⟨⟨k.dispatcher.io.one, k.dispatcher.io.worker⟩, ?_⟩, ?_,
      k.clock, k.cqes, k.hosts, k.sends, k.log.congr rfl rfl, k.dbs⟩
    · intro qid sq hsq
      have q := k.dispatcher.queues qid sq hsq
      exact ⟨q.size, q.cqid, q.slots⟩
    · exact congrArg IoWorker.ioSeq k.dispatcher.io.worker
  | turn hc now hnow hp =>
    obtain ⟨hstep, k'⟩ := k.turn hc hnow hp
    exact ⟨_, hr.step hstep, k'⟩
  | poll cqid hcq =>
    refine ⟨_, hr.step (.poll cqid), ⟨⟨k.dispatcher.io.one, k.dispatcher.io.worker⟩, ?_⟩, k.curr, k.clock,
      k.cqes, ?_, k.sends, k.log.congr rfl rfl, k.dbs⟩
    · intro qid sq hsq
      have q := k.dispatcher.queues qid sq hsq
      exact ⟨q.size, q.cqid, q.slots⟩
    · unfold Exchange.poll
      dsimp only
      rw [← k.cqes cqid _ hcq, k.hosts]

/-- Runs whose handlers log what they answer. -/
def LoggedReachable (cfg : QueueConfig) (proc : ProcIoCmd σ) (w : Served (Logged σ)) : Prop :=
  ∃ dev, ServedInit cfg dev ∧ dev.ftl.2 = [] ∧
    Relation.ReflTransGen (ServedStep cfg (logged proc)) (Served.init dev) w

theorem LoggedReachable.serves (hproc : RewritesSlba proc) {w : Served (Logged σ)}
    (h : LoggedReachable cfg proc w) : ∃ s, ExchangeReachable cfg s ∧ Serves cfg w s := by
  obtain ⟨dev, hinit, hlog, hrun⟩ := h
  induction hrun with
  | refl => exact Serves.init hinit hlog
  | tail _ hstep ih =>
    obtain ⟨s, hr, k⟩ := ih
    exact k.step hproc hr hstep

/-- The same with the log forgotten. -/
def Served.bare (w : Served (Logged σ)) : Served σ := ⟨w.dev.bare, w.curr, w.clock, w.hosts, w.sends⟩

theorem ServedStep.logged {w : Served (Logged σ)} {u : Served σ} (h : ServedStep cfg proc w.bare u) :
    ∃ w', ServedStep cfg (NVMeVirt.logged proc) w w' ∧ w'.bare = u := by
  cases h with
  | submit qid cmd hsq hslot hroom => exact ⟨_, .submit qid cmd hsq hslot hroom, rfl⟩
  | acknowledge cqid value => exact ⟨_, .acknowledge cqid value, rfl⟩
  | dispatch wall now hadmin hd =>
    obtain ⟨dev', hd', rfl⟩ := nvmevProcDbs_logged.of_ok hd
    exact ⟨_, .dispatch wall now hadmin hd', rfl⟩
  | start hc => exact ⟨_, .start hc, rfl⟩
  | turn hc now hnow hp => exact ⟨_, .turn (v := w) hc now hnow hp, rfl⟩
  | poll cqid hcq => exact ⟨_, .poll (v := w) cqid hcq, rfl⟩

/-- The handlers may be taken to log what they answer. -/
theorem ServedReachable.logged {u : Served σ} (h : ServedReachable cfg proc u) :
    ∃ w, LoggedReachable cfg proc w ∧ w.bare = u := by
  obtain ⟨dev, hinit, hrun⟩ := h
  induction hrun with
  | refl =>
    have hlogged : ServedInit cfg (⟨dev.adm, dev.io, (dev.ftl, [])⟩ : Device (Logged σ)) :=
      ⟨hinit.io, hinit.sqs, hinit.cqs⟩
    exact ⟨_, ⟨_, hlogged, rfl, .refl⟩, rfl⟩
  | tail _ hstep ih =>
    obtain ⟨w, ⟨dev', hinit', hlog, hrun'⟩, rfl⟩ := ih
    obtain ⟨w', hstep', rfl⟩ := hstep.logged
    exact ⟨w', ⟨dev', hinit', hlog, hrun'.tail hstep'⟩, rfl⟩

/-- A completion tells of a command: it was sent for the queue, a handler was given it and accepted
it, and the completion has its ids and the status that the handler answered. -/
structure Served.Tells (cfg : QueueConfig) (w : Served (Logged σ)) (cqid : Nat) (told : Nat × Nat × Nat)
    (p : Nat × Nat) : Prop where
  queue : cfg.cqid p.1 = cqid
  told : ∃ cmd a, (ofQueue p.1 w.sends)[p.2]? = some cmd ∧ (ofQueue p.1 w.dev.ftl.2)[p.2]? = some a ∧
    HeldAs cmd a.cmd ∧ told = (cmd.commandId % 2^16, p.1 % 2^16, a.ret.status % 2^15)

theorem Serves.tells (k : Serves cfg v s) {cqid : Nat} {told : Nat × Nat × Nat} {p : Nat × Nat}
    (h : s.Tells cfg cqid told p) : v.Tells cfg cqid told p := by
  obtain ⟨hqueue, cmd, ret, hsent, hres, htold⟩ := h
  obtain ⟨a, ha, rfl⟩ := k.log.answered p.1 p.2 ret hres
  obtain ⟨cmd', hcmd', hheld⟩ := k.log.given p.1 p.2 a ha
  obtain rfl := Option.some.inj (hsent.symm.trans hcmd')
  refine ⟨hqueue, cmd, a, ?_, ha, hheld, htold⟩
  rw [k.sends]
  exact hsent

theorem znsOpcodeOf_append {opcode : Nat} (h : znsOpcodeOf opcode = .zoneAppend) :
    opcode = nvmeCmdZoneAppend := by
  unfold znsOpcodeOf at h
  repeat' split at h
  all_goals first | assumption | cases h

theorem not_append_slba {clk : Nat → Nat} {spp : SsdParams} {garbage : Nat} {ftl : ZnsFtl} {req : ZnsRequest}
    {ret : NvmevResult} {out : ZnsOutcome} (hop : req.cmd.opcode ≠ .zoneAppend)
    (h : znsProcNvmeIoCmd clk spp garbage ftl req ret = .ok out) : out.cmd.slba = req.cmd.slba := by
  by_cases hw : IsWrite req.cmd
  · unfold znsProcNvmeIoCmd at h
    rw [hw.resolve_right hop] at h
    unfold znsWrite at h
    dsimp only at h
    split at h
    · cases h
    split at h
    · obtain ⟨_, hcase⟩ := znsWritePlain_cases h
      have hlba : writeLba spp ftl req.cmd = req.cmd.slba := if_neg hop
      cases hcase with
      | refused short => exact hlba
      | rejected room failed => exact hlba
      | written room passed pages => exact hlba
    · obtain ⟨_, hcase⟩ := znsWriteZrwa_cases h
      cases hcase with
      | rejected checks failed => rfl
      | refused checks amount short => rfl
      | written checks amount flushed => rfl
  · rw [not_write_cmd hw h]

theorem nsProcIoCmd_rewrites (b : NsBuild) (env : HandlerEnv) : RewritesSlba (nsProcIoCmd b env) := by
  intro i ftl cmd sqid wall ret o h
  unfold nsProcIoCmd at h
  cases ftl with
  | simple stat =>
    obtain ⟨o', ho', h⟩ := bind_eq_ok.mp h
    cases h
    dsimp only
    rw [(simpleProcNvmeIoCmd_accepts ho').2.1]
    exact .refl cmd
  | conv spp ns =>
    obtain ⟨o', -, h⟩ := bind_eq_ok.mp h
    cases h
    exact .refl cmd
  | zns spp zns =>
    obtain ⟨o', ho', h⟩ := bind_eq_ok.mp h
    obtain ⟨out, hout, ho'⟩ := bind_eq_ok.mp ho'
    cases ho'
    cases h
    exact ⟨rfl, fun hne => not_append_slba (fun hop => hne (znsOpcodeOf_append hop)) hout⟩

/-- Whatever the handlers of the namespaces answer and in whatever order the hosts, the dispatcher and
the worker take their steps, every completion that a host has taken from a queue tells of a command
that was sent for that queue and accepted, with its ids and the status of the handler's answer, and no
command has two. -/
theorem device_answers {b : NsBuild} {env : HandlerEnv} {v : Served NsFtl}
    (h : ServedReachable cfg (nsProcIoCmd b env) v) (cqid : Nat) :
    ∃ (w : Served (Logged NsFtl)) (s : Exchange) (answered : List (Nat × Nat)),
      LoggedReachable cfg (nsProcIoCmd b env) w ∧ w.bare = v ∧ ExchangeReachable cfg s ∧ Serves cfg w s ∧
      answered.Nodup ∧
      List.Forall₂ (w.Tells cfg cqid) ((v.hosts cqid).taken.map NvmeCompletion.report) answered := by
  obtain ⟨w, hw, rfl⟩ := h.logged
  obtain ⟨s, hr, k⟩ := hw.serves (nsProcIoCmd_rewrites b env)
  obtain ⟨answered, hnodup, htells⟩ := hr.completions_answer cqid
  rw [← k.hosts] at htells
  exact ⟨w, s, answered, hw, rfl, hr, k, hnodup, htells.imp fun _ _ => k.tells⟩

def onePairDev : Device NsFtl where
  adm := { adminDev adminQueue2 createSq1 with
    sqes := Function.update (fun _ => none) 1 (some (createdSq 3 1 fun _ => readSeven))
    cqes := Function.update (fun _ => none) 1 (some (createdCq 3 fun _ => zeroCompletion))
    nrSq := 1
    nrCq := 1 }
  io := nvmevIoWorkerInit 1
  ftl := .simple fun _ => 0

/-- A table with one entry holds nothing else. -/
theorem of_update_none {α : Type} {i j : Nat} {a b : α}
    (h : Function.update (fun _ => none) i (some a) j = some b) : j = i ∧ a = b := by
  by_cases hj : j = i
  · subst hj
    rw [Function.update_self] at h
    exact ⟨rfl, Option.some.inj h⟩
  · rw [Function.update_of_ne hj] at h
    cases h

theorem onePairDev_init : ServedInit fourSlots onePairDev where
  io := rfl
  sqs qid sq hsq := by
    obtain ⟨rfl, rfl⟩ := of_update_none hsq
    exact ⟨rfl, rfl, rfl, rfl⟩
  cqs cqid cq hcq := by
    obtain ⟨rfl, rfl⟩ := of_update_none hcq
    rfl

def flushSeven : NvmeRwCommand := ⟨nvmeCmdFlush, 7, 1, 0, 0, 0, 0, 0⟩

/-- A flush is sent, taken off, completed and seen by its host. -/
theorem device_answers_flush : ∃ v : Served NsFtl,
    ServedReachable fourSlots (nsProcIoCmd znsBuild stillEnv) v ∧ (v.hosts 1).taken.length = 1 ∧
    ∃ (w : Served (Logged NsFtl)) (p : Nat × Nat), w.bare = v ∧ w.Tells fourSlots 1 (7, 1, 0) p := by
  have h₀ : ServedReachable fourSlots (nsProcIoCmd znsBuild stillEnv) (Served.init onePairDev) :=
    ⟨_, onePairDev_init, .refl⟩
  have h₁ := h₀.step (.submit 1 flushSeven rfl (by decide) (by decide))
  have h₂ := h₁.step (.dispatch (fun _ _ => 0) (fun _ _ => 0) rfl rfl)
  have h₃ := h₂.step (.start rfl)
  have h₄ := h₃.step (.turn (by decide) 0 (by decide) rfl)
  have h₅ := h₄.step (.poll 1 rfl)
  obtain ⟨w, _, answered, -, hbare, -, -, -, htells⟩ := device_answers h₅ 1
  refine ⟨_, h₅, rfl, ?_⟩
  cases htells with
  | cons h _ => exact ⟨w, _, hbare, h⟩

end NVMeVirt
