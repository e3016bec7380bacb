import NVMeVirt.CompletionRing
import NVMeVirt.IoDrain
import NVMeVirt.SimpleFtl

/-!
# Commands and their completions

The hosts, the dispatcher and one worker, with all submission queues that the worker serves and the
completion queues that these post to. Beside the queues an `Exchange` keeps what has been sent, what
has become of the commands taken off, and for which command each work was enqueued.
-/

namespace NVMeVirt
set_option autoImplicit false
open Outcome Chains Relation

/-- The queues as the admin commands have created them. -/
structure QueueConfig where
  sqSize : Nat → Nat
  cqid : Nat → Nat
  cq : Nat → CompletionQueue
  sqPos : ∀ qid, 0 < sqSize qid
  fresh : ∀ cqid, FreshRing (cq cqid)

/-- A result of `none` is a command for which no entry was free; an origin of `none` is a release
of write buffer. -/
structure Exchange where
  trace : Trace
  sq : Nat → Nat → NvmeRwCommand
  cqes : Nat → CompletionQueue
  hosts : Nat → HostCq
  sends : List (Nat × NvmeRwCommand)
  takes : List (Nat × Option NvmevResult)
  origins : List (Option (Nat × Nat))

def ofQueue {α : Type} (qid : Nat) (l : List (Nat × α)) : List α :=
  l.filterMap fun p => if p.1 = qid then some p.2 else none

namespace Exchange
variable (cfg : QueueConfig) (s : Exchange)

def init (sq : Nat → Nat → NvmeRwCommand) : Exchange :=
  ⟨Trace.init, sq, cfg.cq, fun _ => HostCq.start, [], [], []⟩

def sent (qid : Nat) : List NvmeRwCommand := ofQueue qid s.sends
def results (qid : Nat) : List (Option NvmevResult) := ofQueue qid s.takes

/-- The number of commands for a completion queue. -/
def sentTo (cqid : Nat) : Nat := s.sends.countP fun p => cfg.cqid p.1 = cqid

/-- The slot of the next command that the dispatcher looks at. -/
def next (qid : Nat) : Nat := (s.results qid).length % cfg.sqSize qid

def command (qid : Nat) : NvmeRwCommand := s.sq qid (s.next cfg qid)

def setSlot (qid slot : Nat) (cmd : NvmeRwCommand) : Exchange :=
  { s with sq := Function.update s.sq qid (Function.update (s.sq qid) slot cmd) }

/-- The host writes the next slot and rings the doorbell. -/
def submit (qid : Nat) (cmd : NvmeRwCommand) : Exchange :=
  { s.setSlot qid ((s.sent qid).length % cfg.sqSize qid) cmd with sends := s.sends ++ [(qid, cmd)] }

/-- A zone append puts the address it got into the command. -/
def rewrite (qid slba : Nat) : Exchange :=
  s.setSlot qid (s.next cfg qid) { s.command cfg qid with slba := slba }

def dispatch (qid : Nat) (c : WorkCall) (ret : NvmevResult) (worker' : IoWorker) : Exchange :=
  { s with
    trace := s.trace.placed c worker'
    takes := s.takes ++ [(qid, some ret)]
    origins := s.origins ++ [some (qid, (s.results qid).length)] }

def drop (qid : Nat) : Exchange := { s with takes := s.takes ++ [(qid, none)] }

def schedule (c : WorkCall) (worker' : IoWorker) : Exchange :=
  { s with trace := s.trace.placed c worker', origins := s.origins ++ [none] }

def post : WorkerAction → Exchange
  | .fillCqResult w =>
    { s with cqes := Function.update s.cqes w.cqid (NVMeVirt.fillCqResult (s.cqes w.cqid) w) }
  | .performIo _ _ | .bufferRelease _ _ => s

def turn (now : Nat) : Exchange :=
  (workerTurn s.trace.worker s.trace.curr now).2.2.foldl post { s with trace := s.trace.turn now }

def poll (cqid : Nat) : Exchange :=
  { s with hosts := Function.update s.hosts cqid ((s.hosts cqid).poll (s.cqes cqid)) }

end Exchange

/-- The call that `__nvmev_proc_io` makes for the next command of a queue. -/
def QueueConfig.request (cfg : QueueConfig) (s : Exchange) (qid nsecsStart now : Nat) (ret : NvmevResult) :
    WorkCall :=
  .enqueueIoReq qid (cfg.cqid qid) (s.next cfg qid) (s.command cfg qid).commandId nsecsStart now ret

inductive DispatcherStep (cfg : QueueConfig) (s : Exchange) : Exchange → Prop where
  | rewrite (qid slba : Nat) (hc : (s.results qid).length < (s.sent qid).length)
      (happend : (s.command cfg qid).opcode ≠ nvmeCmdZoneAppend → slba = (s.command cfg qid).slba) :
      DispatcherStep cfg s (s.rewrite cfg qid slba)
  | dispatch (qid nsecsStart now : Nat) (ret : NvmevResult) {worker' : IoWorker}
      (hc : (s.results qid).length < (s.sent qid).length)
      (h : placeEntry s.trace.worker (cfg.request s qid nsecsStart now ret).fill ret.nsecsTarget =
        .ok (some worker')) :
      DispatcherStep cfg s (s.dispatch qid (cfg.request s qid nsecsStart now ret) ret worker')
  | drop (qid nsecsStart now : Nat) (ret : NvmevResult)
      (hc : (s.results qid).length < (s.sent qid).length)
      (h : placeEntry s.trace.worker (cfg.request s qid nsecsStart now ret).fill ret.nsecsTarget = .ok none) :
      DispatcherStep cfg s (s.drop qid)
  | schedule (sqid nsecsTarget writeBuffer buffsToRelease now : Nat) {worker' : IoWorker}
      (h : placeEntry s.trace.worker (internalWork sqid nsecsTarget writeBuffer buffsToRelease now)
        nsecsTarget = .ok (some worker')) :
      DispatcherStep cfg s
        (s.schedule (.scheduleInternalOperation sqid nsecsTarget writeBuffer buffsToRelease now) worker')
  | reclaim {worker' : IoWorker} (h : reclaimWorker s.trace.worker = .ok worker') :
      DispatcherStep cfg s { s with trace := s.trace.reclaim worker' }

abbrev DispatcherRun (cfg : QueueConfig) : Exchange → Exchange → Prop := ReflTransGen (DispatcherStep cfg)

/-- One step of a host, the dispatcher or the worker. A host does not write over a command that
waits, and has no more outstanding on a completion queue than that holds. -/
inductive ExchangeStep (cfg : QueueConfig) (s : Exchange) : Exchange → Prop where
  | submit (qid : Nat) (cmd : NvmeRwCommand)
      (hslot : (s.sent qid).length + 1 < (s.results qid).length + cfg.sqSize qid)
      (hroom : s.sentTo cfg (cfg.cqid qid) <
        (s.hosts (cfg.cqid qid)).taken.length + (cfg.cq (cfg.cqid qid)).queueSize) :
      ExchangeStep cfg s (s.submit cfg qid cmd)
  | dispatcher {s' : Exchange} (h : DispatcherStep cfg s s') : ExchangeStep cfg s s'
  | start (h : s.trace.curr = noEntry) :
      ExchangeStep cfg s { s with trace := { s.trace with curr := s.trace.worker.ioSeq } }
  | turn (h : s.trace.curr ≠ noEntry) (now : Nat) (hnow : s.trace.clock ≤ now) :
      ExchangeStep cfg s (s.turn now)
  | poll (cqid : Nat) : ExchangeStep cfg s (s.poll cqid)

abbrev ExchangeRun (cfg : QueueConfig) : Exchange → Exchange → Prop := ReflTransGen (ExchangeStep cfg)

def ExchangeReachable (cfg : QueueConfig) (s : Exchange) : Prop :=
  ∃ sq, ExchangeRun cfg (Exchange.init cfg sq) s

variable {cfg : QueueConfig} {s s' : Exchange} {qid cqid : Nat}

section Logs
variable {α : Type} {l : List (Nat × α)} {a : α}

theorem ofQueue_snoc (qid i : Nat) (l : List (Nat × α)) (a : α) :
    ofQueue qid (l ++ [(i, a)]) = if i = qid then ofQueue qid l ++ [a] else ofQueue qid l := by
  unfold ofQueue
  rw [List.filterMap_append]
  by_cases h : i = qid
  · simp [h]
  · simp [h]

theorem ofQueue_snoc_self : ofQueue qid (l ++ [(qid, a)]) = ofQueue qid l ++ [a] := by
  rw [ofQueue_snoc, if_pos rfl]

theorem ofQueue_snoc_other {i : Nat} (h : i ≠ qid) : ofQueue qid (l ++ [(i, a)]) = ofQueue qid l := by
  rw [ofQueue_snoc, if_neg h]

theorem ofQueue_length : (ofQueue qid l).length = (l.map Prod.fst).count qid := by
  induction l with
  | nil => rfl
  | cons p l ih =>
    unfold ofQueue at ih ⊢
    by_cases h : p.1 = qid
    · simp [h, ih]
    · simp [h, ih]

theorem ofQueue_getElem? {i n : Nat} {b : α} (h : (ofQueue qid l)[n]? = some b) :
    (ofQueue qid (l ++ [(i, a)]))[n]? = some b := by
  rw [ofQueue_snoc]
  split
  · rw [List.getElem?_append_left (List.getElem?_eq_some_iff.mp h).1]
    exact h
  · exact h

end Logs

theorem Exchange.sent_congr (h : s'.sends = s.sends) : s'.sent = s.sent := by
  unfold Exchange.sent
  rw [h]

theorem Exchange.results_congr (h : s'.takes = s.takes) : s'.results = s.results := by
  unfold Exchange.results
  rw [h]

/-- What a slot holds of a command that was sent; a zone append may have got another address. -/
structure HeldAs (cmd held : NvmeRwCommand) : Prop where
  rest : held = { cmd with slba := held.slba }
  slba : cmd.opcode ≠ nvmeCmdZoneAppend → held.slba = cmd.slba

theorem HeldAs.refl (cmd : NvmeRwCommand) : HeldAs cmd cmd := ⟨rfl, fun _ => rfl⟩

theorem HeldAs.commandId {cmd held : NvmeRwCommand} (h : HeldAs cmd held) : held.commandId = cmd.commandId := by
  rw [h.rest]

theorem HeldAs.rewrite {cmd held : NvmeRwCommand} (h : HeldAs cmd held) {slba : Nat}
    (happend : held.opcode ≠ nvmeCmdZoneAppend → slba = held.slba) : HeldAs cmd { held with slba := slba } := by
  have hop : held.opcode = cmd.opcode := by rw [h.rest]
  refine ⟨?_, fun hne => ?_⟩
  · rw [h.rest]
  · rw [hop] at happend
    exact (happend hne).trans (h.slba hne)

structure SlotsHold (cfg : QueueConfig) (s : Exchange) : Prop where
  behind : ∀ qid, (s.results qid).length ≤ (s.sent qid).length
  window : ∀ qid, (s.sent qid).length < (s.results qid).length + cfg.sqSize qid
  waiting : ∀ qid n cmd, (s.results qid).length ≤ n → (s.sent qid)[n]? = some cmd →
    HeldAs cmd (s.sq qid (n % cfg.sqSize qid))

theorem SlotsHold.congr (k : SlotsHold cfg s) (hsq : s'.sq = s.sq) (hsends : s'.sends = s.sends)
    (htakes : s'.takes = s.takes) : SlotsHold cfg s' := by
  have hsent := Exchange.sent_congr hsends
  have hresults := Exchange.results_congr htakes
  refine ⟨?_, ?_, ?_⟩
  · rw [hsent, hresults]
    exact k.behind
  · rw [hsent, hresults]
    exact k.window
  · rw [hsent, hresults, hsq]
    exact k.waiting

theorem SlotsHold.submit (k : SlotsHold cfg s) {cmd : NvmeRwCommand}
    (hslot : (s.sent qid).length + 1 < (s.results qid).length + cfg.sqSize qid) :
    SlotsHold cfg (s.submit cfg qid cmd) := by
  have hother : ∀ i, i ≠ qid → (s.submit cfg qid cmd).sent i = s.sent i :=
    fun i hi => ofQueue_snoc_other (Ne.symm hi)
  have hself : (s.submit cfg qid cmd).sent qid = s.sent qid ++ [cmd] := ofQueue_snoc_self
  refine ⟨?_, ?_, ?_⟩
  · intro i
    change (s.results i).length ≤ _
    by_cases hi : i = qid
    · subst hi
      rw [hself, List.length_append]
      exact Nat.le_add_right_of_le (k.behind i)
    · rw [hother i hi]
      exact k.behind i
  · intro i
    change _ < (s.results i).length + _
    by_cases hi : i = qid
    · subst hi
      rw [hself, List.length_append, List.length_singleton]
      omega
    · rw [hother i hi]
      exact k.window i
  · intro i n c hn hc
    have hn : (s.results i).length ≤ n := hn
    change HeldAs c (Function.update s.sq qid _ i (n % cfg.sqSize i))
    by_cases hi : i = qid
    · subst hi
      rw [Function.update_self]
      rw [hself] at hc
      rcases Nat.lt_or_ge n (s.sent i).length with hlt | hge
      · -- another slot, as less than a lap lies between the two
        have hne : n % cfg.sqSize i ≠ (s.sent i).length % cfg.sqSize i := fun heq =>
          Nat.ne_of_lt hlt (Ring.mod_inj (Nat.le_of_lt hlt) (by omega) heq)
        rw [List.getElem?_append_left hlt] at hc
        rw [Function.update_of_ne hne]
        exact k.waiting i n c hn hc
      · rw [List.getElem?_append_right hge] at hc
        have hzero : n - (s.sent i).length = 0 := Nat.lt_one_iff.mp (List.getElem?_eq_some_iff.mp hc).1
        rw [hzero] at hc
        obtain rfl := Option.some.inj hc
        rw [show n = (s.sent i).length by omega, Function.update_self]
        exact .refl cmd
    · rw [Function.update_of_ne hi]
      rw [hother i hi] at hc
      exact k.waiting i n c hn hc

theorem SlotsHold.rewrite (k : SlotsHold cfg s) {slba : Nat}
    (happend : (s.command cfg qid).opcode ≠ nvmeCmdZoneAppend → slba = (s.command cfg qid).slba) :
    SlotsHold cfg (s.rewrite cfg qid slba) := by
  refine ⟨k.behind, k.window, ?_⟩
  intro i n c hn hc
  have hold := k.waiting i n c hn hc
  change HeldAs c (Function.update s.sq qid _ i (n % cfg.sqSize i))
  by_cases hi : i = qid
  · subst hi
    rw [Function.update_self]
    by_cases hslot : n % cfg.sqSize i = s.next cfg i
    · rw [hslot, Function.update_self]
      rw [hslot] at hold
      exact hold.rewrite happend
    · rw [Function.update_of_ne hslot]
      exact hold
  · rw [Function.update_of_ne hi]
    exact hold

theorem SlotsHold.take (k : SlotsHold cfg s) (hc : (s.results qid).length < (s.sent qid).length)
    {r : Option NvmevResult} (hsq : s'.sq = s.sq) (hsends : s'.sends = s.sends)
    (htakes : s'.takes = s.takes ++ [(qid, r)]) : SlotsHold cfg s' := by
  have hsent := Exchange.sent_congr hsends
  have hresults : ∀ i, (s'.results i).length = (s.results i).length + if qid = i then 1 else 0 := by
    intro i
    unfold Exchange.results
    rw [htakes, ofQueue_snoc]
    split
    · rw [List.length_append, List.length_singleton]
    · rw [Nat.add_zero]
  refine ⟨?_, ?_, ?_⟩
  · intro i
    rw [hsent, hresults]
    have hi := k.behind i
    split
    · rename_i heq
      subst heq
      exact hc
    · exact hi
  · intro i
    rw [hsent, hresults]
    have hi := k.window i
    omega
  · intro i n c hn hcmd
    rw [hresults] at hn
    rw [hsent] at hcmd
    rw [hsq]
    exact k.waiting i n c (by omega) hcmd

theorem SlotsHold.next_command (k : SlotsHold cfg s) (hc : (s.results qid).length < (s.sent qid).length) :
    ∃ cmd, (s.sent qid)[(s.results qid).length]? = some cmd ∧ HeldAs cmd (s.command cfg qid) := by
  obtain ⟨cmd, hcmd⟩ : ∃ cmd, (s.sent qid)[(s.results qid).length]? = some cmd :=
    ⟨_, List.getElem?_eq_getElem hc⟩
  exact ⟨cmd, hcmd, k.waiting qid _ cmd (Nat.le_refl _) hcmd⟩

/-- The call was made for command `p.2` of queue `p.1`. -/
def Exchange.Carries (cfg : QueueConfig) (s : Exchange) (c : WorkCall) (p : Nat × Nat) : Prop :=
  ∃ cmd ret nsecsStart now, (s.sent p.1)[p.2]? = some cmd ∧ (s.results p.1)[p.2]? = some (some ret) ∧
    c = .enqueueIoReq p.1 (cfg.cqid p.1) (p.2 % cfg.sqSize p.1) cmd.commandId nsecsStart now ret

structure OriginsOk (cfg : QueueConfig) (s : Exchange) : Prop where
  length : s.origins.length = s.trace.enqueued.length
  carried : ∀ (k : Nat) (p : Nat × Nat), s.origins[k]? = some (some p) →
    ∃ c, s.trace.enqueued[k]? = some c ∧ s.Carries cfg c p
  released : ∀ k : Nat, s.origins[k]? = some none → ∃ c, s.trace.enqueued[k]? = some c ∧ c.isInternal = true
  distinct : s.origins.Pairwise fun o o' => o.isSome → o ≠ o'
  every : ∀ qid n ret, (s.results qid)[n]? = some (some ret) → some (qid, n) ∈ s.origins
  asked : ∀ cqid, s.origins.countP (fun o => o.any fun p => cfg.cqid p.1 = cqid) ≤
    s.takes.countP fun p => cfg.cqid p.1 = cqid

theorem Exchange.Carries.mono {c : WorkCall} {p : Nat × Nat} (h : s.Carries cfg c p)
    (hsent : ∀ cmd, (s.sent p.1)[p.2]? = some cmd → (s'.sent p.1)[p.2]? = some cmd)
    (hresult : ∀ r, (s.results p.1)[p.2]? = some r → (s'.results p.1)[p.2]? = some r) :
    s'.Carries cfg c p := by
  obtain ⟨cmd, ret, nsecsStart, now, hcmd, hret, hc⟩ := h
  exact ⟨cmd, ret, nsecsStart, now, hsent cmd hcmd, hresult _ hret, hc⟩

theorem getElem?_snoc {α : Type} {l : List α} {a b : α} {k : Nat} (h : (l ++ [a])[k]? = some b) :
    l[k]? = some b ∨ k = l.length ∧ a = b := by
  rcases Nat.lt_or_ge k l.length with hlt | hge
  · rw [List.getElem?_append_left hlt] at h
    exact Or.inl h
  · rw [List.getElem?_append_right hge] at h
    have hzero : k - l.length = 0 := Nat.lt_one_iff.mp (List.getElem?_eq_some_iff.mp h).1
    rw [hzero] at h
    exact Or.inr ⟨by omega, Option.some.inj h⟩

theorem getElem?_kept {α : Type} {l more : List α} {b : α} {k : Nat} (h : l[k]? = some b) :
    (l ++ more)[k]? = some b := by
  rw [List.getElem?_append_left (List.getElem?_eq_some_iff.mp h).1]
  exact h

theorem OriginsOk.bound (k : OriginsOk cfg s) {p : Nat × Nat} (hp : some p ∈ s.origins) :
    p.2 < (s.results p.1).length := by
  obtain ⟨i, hi⟩ := List.getElem?_of_mem hp
  obtain ⟨_, -, _, _, _, _, -, hret, -⟩ := k.carried i p hi
  exact (List.getElem?_eq_some_iff.mp hret).1

theorem OriginsOk.congr (k : OriginsOk cfg s) (henqueued : s'.trace.enqueued = s.trace.enqueued)
    (hsends : s'.sends = s.sends) (htakes : s'.takes = s.takes) (horigins : s'.origins = s.origins) :
    OriginsOk cfg s' := by
  have hsent := Exchange.sent_congr hsends
  have hresults := Exchange.results_congr htakes
  refine ⟨?_, ?_, ?_, ?_, ?_, ?_⟩
  · rw [horigins, henqueued]
    exact k.length
  · intro i p hi
    rw [horigins] at hi
    rw [henqueued]
    obtain ⟨w, hw, hc⟩ := k.carried i p hi
    exact ⟨w, hw, hc.mono (by rw [hsent]; exact fun _ => id) (by rw [hresults]; exact fun _ => id)⟩
  · rw [horigins, henqueued]
    exact k.released
  · rw [horigins]
    exact k.distinct
  · rw [horigins, hresults]
    exact k.every
  · rw [horigins, htakes]
    exact k.asked

theorem OriginsOk.submit (k : OriginsOk cfg s) (cmd : NvmeRwCommand) :
    OriginsOk cfg (s.submit cfg qid cmd) := by
  refine ⟨k.length, ?_, k.released, k.distinct, k.every, k.asked⟩
  intro i p hi
  obtain ⟨w, hw, hc⟩ := k.carried i p hi
  exact ⟨w, hw, hc.mono (fun c hc => ofQueue_getElem? hc) (fun _ => id)⟩

theorem OriginsOk.dispatch (k : OriginsOk cfg s) (hs : SlotsHold cfg s) {nsecsStart now : Nat}
    {ret : NvmevResult} {worker' : IoWorker} (hc : (s.results qid).length < (s.sent qid).length) :
    OriginsOk cfg (s.dispatch qid (cfg.request s qid nsecsStart now ret) ret worker') := by
  generalize hcall : cfg.request s qid nsecsStart now ret = call
  have hlog : (s.dispatch qid call ret worker').trace.enqueued = s.trace.enqueued ++ [call] := rfl
  have hlast : (s.dispatch qid call ret worker').results qid = s.results qid ++ [some ret] := ofQueue_snoc_self
  have hold : ∀ {i n : Nat} {r : Option NvmevResult}, (s.results i)[n]? = some r →
      ((s.dispatch qid call ret worker').results i)[n]? = some r := fun h => ofQueue_getElem? h
  refine ⟨?_, ?_, ?_, ?_, ?_, ?_⟩
  · rw [hlog]
    change (s.origins ++ [_]).length = _
    rw [List.length_append, List.length_append, k.length]
    rfl
  · intro i p hi
    rw [hlog]
    rcases getElem?_snoc hi with hi | ⟨rfl, hp⟩
    · obtain ⟨w, hw, hcarries⟩ := k.carried i p hi
      exact ⟨w, getElem?_kept hw, hcarries.mono (fun _ => id) (fun _ => hold)⟩
    · obtain rfl := Option.some.inj hp
      obtain ⟨cmd, hcmd, hheld⟩ := hs.next_command hc
      refine ⟨call, by rw [k.length]; exact List.getElem?_concat_length, cmd, ret, nsecsStart, now, hcmd,
        ?_, ?_⟩
      · rw [hlast]
        exact List.getElem?_concat_length
      · rw [← hcall, ← hheld.commandId]
        rfl
  · intro i hi
    rw [hlog]
    rcases getElem?_snoc hi with hi | ⟨-, hp⟩
    · obtain ⟨w, hw, hint⟩ := k.released i hi
      exact ⟨w, getElem?_kept hw, hint⟩
    · cases hp
  · refine List.pairwise_append.mpr ⟨k.distinct, List.pairwise_singleton _ _, ?_⟩
    intro o ho o' ho' hsome heq
    rw [List.mem_singleton.mp ho'] at heq
    subst heq
    exact Nat.lt_irrefl _ (k.bound ho)
  · intro i n r hr
    change some (i, n) ∈ s.origins ++ [_]
    by_cases hi : i = qid
    · subst hi
      rw [hlast] at hr
      rcases getElem?_snoc hr with hr | ⟨rfl, -⟩
      · exact List.mem_append_left _ (k.every i n r hr)
      · exact List.mem_append_right _ List.mem_cons_self
    · have hother : (s.dispatch qid call ret worker').results i = s.results i := ofQueue_snoc_other (Ne.symm hi)
      rw [hother] at hr
      exact List.mem_append_left _ (k.every i n r hr)
  · intro cqid
    change (s.origins ++ [_]).countP _ ≤ (s.takes ++ [_]).countP _
    rw [List.countP_append, List.countP_append]
    exact Nat.add_le_add (k.asked cqid) (Nat.le_of_eq rfl)

theorem OriginsOk.drop (k : OriginsOk cfg s) : OriginsOk cfg (s.drop qid) := by
  have hold : ∀ {i n : Nat} {r : Option NvmevResult}, (s.results i)[n]? = some r →
      ((s.drop qid).results i)[n]? = some r := fun h => ofQueue_getElem? h
  refine ⟨k.length, ?_, k.released, k.distinct, ?_, ?_⟩
  · intro i p hi
    obtain ⟨w, hw, hcarries⟩ := k.carried i p hi
    exact ⟨w, hw, hcarries.mono (fun _ => id) (fun _ => hold)⟩
  · intro i n r hr
    unfold Exchange.results Exchange.drop at hr
    dsimp only at hr
    rw [ofQueue_snoc] at hr
    split at hr
    · rcases getElem?_snoc hr with hr | ⟨-, hnone⟩
      · exact k.every i n r hr
      · cases hnone
    · exact k.every i n r hr
  · intro cqid
    change _ ≤ (s.takes ++ [_]).countP _
    rw [List.countP_append]
    exact Nat.le_add_right_of_le (k.asked cqid)

theorem OriginsOk.schedule (k : OriginsOk cfg s) {c : WorkCall} (hint : c.isInternal = true)
    {worker' : IoWorker} : OriginsOk cfg (s.schedule c worker') := by
  have hlog : (s.schedule c worker').trace.enqueued = s.trace.enqueued ++ [c] := rfl
  refine ⟨?_, ?_, ?_, ?_, ?_, ?_⟩
  · rw [hlog]
    change (s.origins ++ [_]).length = _
    rw [List.length_append, List.length_append, k.length]
    rfl
  · intro i p hi
    rw [hlog]
    rcases getElem?_snoc hi with hi | ⟨-, hp⟩
    · obtain ⟨w, hw, hcarries⟩ := k.carried i p hi
      exact ⟨w, getElem?_kept hw, hcarries.mono (fun _ => id) (fun _ => id)⟩
    · cases hp
  · intro i hi
    rw [hlog]
    rcases getElem?_snoc hi with hi | ⟨rfl, -⟩
    · obtain ⟨w, hw, hint⟩ := k.released i hi
      exact ⟨w, getElem?_kept hw, hint⟩
    · exact ⟨c, by rw [k.length]; exact List.getElem?_concat_length, hint⟩
  · refine List.pairwise_append.mpr ⟨k.distinct, List.pairwise_singleton _ _, ?_⟩
    intro o ho o' ho' hsome heq
    rw [List.mem_singleton.mp ho'] at heq
    rw [heq] at hsome
    cases hsome
  · intro i n r hr
    exact List.mem_append_left _ (k.every i n r hr)
  · intro cqid
    change (s.origins ++ [_]).countP _ ≤ _
    rw [List.countP_append]
    exact k.asked cqid

def WorkerAction.posted (cqid : Nat) : WorkerAction → Option IoWork
  | .fillCqResult w => if w.cqid = cqid then some w else none
  | .performIo _ _ | .bufferRelease _ _ => none

/-- The completions posted to a queue. -/
def Trace.posted (t : Trace) (cqid : Nat) : List IoWork := t.log.filterMap fun f => f.action.posted cqid

/-- The commands that they answer. -/
def Exchange.answered (s : Exchange) (cqid : Nat) : List (Nat × Nat) :=
  s.trace.log.filterMap fun f =>
    (f.action.posted cqid).bind fun _ => f.owner.bind fun k => (s.origins[k]?).join

/-- Ids and status in an entry of the queue are those of command `p.2` of queue `p.1`. -/
structure Exchange.Tells (cfg : QueueConfig) (s : Exchange) (cqid : Nat) (told : Nat × Nat × Nat)
    (p : Nat × Nat) : Prop where
  queue : cfg.cqid p.1 = cqid
  told : ∃ cmd ret, (s.sent p.1)[p.2]? = some cmd ∧ (s.results p.1)[p.2]? = some (some ret) ∧
    told = (cmd.commandId % 2^16, p.1 % 2^16, ret.status % 2^15)

theorem WorkerAction.posted_eq_some {action : WorkerAction} {w : IoWork} :
    action.posted cqid = some w ↔ action = .fillCqResult w ∧ w.cqid = cqid := by
  cases action with
  | fillCqResult v =>
    refine Option.ite_none_right_eq_some.trans ⟨?_, ?_⟩
    · rintro ⟨hq, h⟩
      obtain rfl := Option.some.inj h
      exact ⟨rfl, hq⟩
    · rintro ⟨h, hq⟩
      cases h
      exact ⟨hq, rfl⟩
  | performIo sqid sqEntry => exact iff_of_false (fun h => nomatch h) (fun h => nomatch h.1)
  | bufferRelease writeBuffer bytes => exact iff_of_false (fun h => nomatch h) (fun h => nomatch h.1)

theorem OriginsOk.answers (k : OriginsOk cfg s) (ht : TraceReachable s.trace) {f : Finished}
    (hf : f ∈ s.trace.log) {w : IoWork} (hw : f.action.posted cqid = some w) :
    ∃ i p, f.owner = some i ∧ s.origins[i]? = some (some p) ∧ s.Tells cfg cqid w.report p := by
  obtain ⟨fresh, used, io, t⟩ := ht.ok
  obtain ⟨i, c, howner, henq, -, hans⟩ := t.answered f hf
  obtain ⟨haction, hcqid⟩ := WorkerAction.posted_eq_some.mp hw
  rw [haction] at hans
  obtain ⟨o, ho⟩ : ∃ o, s.origins[i]? = some o :=
    ⟨_, List.getElem?_eq_getElem (by rw [k.length]; exact (List.getElem?_eq_some_iff.mp henq).1)⟩
  cases o with
  | none =>
    obtain ⟨_, hc, hint⟩ := k.released i ho
    obtain rfl := Option.some.inj (henq.symm.trans hc)
    cases c with
    | enqueueIoReq => cases hint
    | scheduleInternalOperation => exact hans.elim
  | some p =>
    obtain ⟨_, hc, cmd, ret, nsecsStart, now, hcmd, hret, hcall⟩ := k.carried i p ho
    obtain rfl := Option.some.inj (henq.symm.trans hc)
    rw [hcall] at hans
    obtain ⟨hid, hsqid, hcq, hstatus⟩ := hans
    refine ⟨i, p, howner, ho, hcq.symm.trans hcqid, cmd, ret, hcmd, hret, ?_⟩
    unfold IoWork.report
    rw [hid, hsqid, hstatus]

theorem OriginsOk.tells (k : OriginsOk cfg s) (ht : TraceReachable s.trace) (cqid : Nat) :
    List.Forall₂ (s.Tells cfg cqid) ((s.trace.posted cqid).map IoWork.report) (s.answered cqid) := by
  rw [List.forall₂_map_left_iff]
  have hsame : List.Forall₂ (fun f g => f ∈ s.trace.log ∧ f = g) s.trace.log s.trace.log :=
    List.forall₂_same.mpr fun f hf => ⟨hf, rfl⟩
  refine List.rel_filterMap ?_ hsame
  rintro f _ ⟨hf, rfl⟩
  dsimp only
  cases hw : f.action.posted cqid with
  | none => exact .none
  | some w =>
    obtain ⟨i, p, howner, ho, htells⟩ := k.answers ht hf hw
    rw [Option.bind_some, howner, Option.bind_some, ho]
    exact .some htells

theorem OriginsOk.inj (k : OriginsOk cfg s) {i j : Nat} {p : Nat × Nat} (hi : s.origins[i]? = some (some p))
    (hj : s.origins[j]? = some (some p)) : i = j := by
  obtain ⟨hilt, hi⟩ := List.getElem?_eq_some_iff.mp hi
  obtain ⟨hjlt, hj⟩ := List.getElem?_eq_some_iff.mp hj
  have hpair := List.pairwise_iff_getElem.mp k.distinct
  by_contra hne
  rcases Nat.lt_or_gt_of_ne hne with h | h
  · exact hpair i j hilt hjlt h (by rw [hi]; rfl) (hi.trans hj.symm)
  · exact hpair j i hjlt hilt h (by rw [hj]; rfl) (hj.trans hi.symm)

theorem OriginsOk.answered_nodup (k : OriginsOk cfg s) (ht : TraceReachable s.trace) (cqid : Nat) :
    (s.answered cqid).Nodup := by
  obtain ⟨fresh, used, io, t⟩ := ht.ok
  have hpair : s.trace.log.Pairwise fun f g => f.owner ≠ g.owner := List.pairwise_map.mp t.once
  refine hpair.filterMap _ ?_
  intro f g hne p hp q hq hpq
  subst hpq
  obtain ⟨_, _, hp⟩ := Option.bind_eq_some_iff.mp hp
  obtain ⟨i, hi, hp⟩ := Option.bind_eq_some_iff.mp hp
  obtain ⟨_, _, hq⟩ := Option.bind_eq_some_iff.mp hq
  obtain ⟨j, hj, hq⟩ := Option.bind_eq_some_iff.mp hq
  rw [Option.join_eq_some_iff] at hp hq
  exact hne (by rw [hi, hj, k.inj hp hq])

/-- The commands for a completion queue for which a work was enqueued. -/
def Exchange.requests (cfg : QueueConfig) (s : Exchange) (cqid : Nat) : List (Nat × Nat) :=
  s.origins.filterMap (Option.filter fun p => cfg.cqid p.1 = cqid)

theorem OriginsOk.of_answered (k : OriginsOk cfg s) (ht : TraceReachable s.trace) {p : Nat × Nat}
    (hp : p ∈ s.answered cqid) : some p ∈ s.origins ∧ ∃ told, s.Tells cfg cqid told p := by
  obtain ⟨f, hf, hp⟩ := List.mem_filterMap.mp hp
  obtain ⟨w, hw, hp⟩ := Option.bind_eq_some_iff.mp hp
  obtain ⟨i, p', howner, ho, htells⟩ := k.answers ht hf hw
  rw [howner, Option.bind_some, ho] at hp
  obtain rfl := Option.some.inj hp
  exact ⟨List.mem_of_getElem? ho, _, htells⟩

theorem OriginsOk.answered_of_logged (k : OriginsOk cfg s) (ht : TraceReachable s.trace) {i : Nat}
    {p : Nat × Nat} (hi : s.origins[i]? = some (some p)) {f : Finished} (hf : f ∈ s.trace.log)
    (howner : f.owner = some i) : p ∈ s.answered (cfg.cqid p.1) := by
  obtain ⟨fresh, used, io, t⟩ := ht.ok
  obtain ⟨c, hc, cmd, ret, nsecsStart, now, -, -, hcall⟩ := k.carried i p hi
  obtain ⟨i', c', hi', hc', -, hans⟩ := t.answered f hf
  obtain rfl := Option.some.inj (howner.symm.trans hi')
  obtain rfl := Option.some.inj (hc.symm.trans hc')
  rw [hcall] at hans
  refine List.mem_filterMap.mpr ⟨f, hf, ?_⟩
  cases haction : f.action with
  | performIo sqid sqEntry =>
    rw [haction] at hans
    exact hans.elim
  | bufferRelease writeBuffer bytes =>
    rw [haction] at hans
    exact hans.elim
  | fillCqResult v =>
    rw [haction] at hans
    have hv : v.cqid = cfg.cqid p.1 := hans.2.2.1
    rw [WorkerAction.posted_eq_some.mpr ⟨rfl, hv⟩, Option.bind_some, howner, Option.bind_some, hi]
    rfl

theorem OriginsOk.answered_subset (k : OriginsOk cfg s) (ht : TraceReachable s.trace) (cqid : Nat) :
    s.answered cqid ⊆ s.requests cfg cqid := by
  intro p hp
  obtain ⟨hmem, _, htells⟩ := k.of_answered ht hp
  refine List.mem_filterMap.mpr ⟨some p, hmem, ?_⟩
  rw [Option.filter_some, if_pos (decide_eq_true htells.queue)]

theorem OriginsOk.posted_le (k : OriginsOk cfg s) (hs : SlotsHold cfg s) (ht : TraceReachable s.trace)
    (cqid : Nat) : (s.trace.posted cqid).length ≤ s.sentTo cfg cqid := by
  have hcounts : List.Subperm (s.takes.map Prod.fst) (s.sends.map Prod.fst) := by
    refine List.subperm_ext_iff.mpr fun qid _ => ?_
    rw [← ofQueue_length, ← ofQueue_length]
    exact hs.behind qid
  have hlen := (k.tells ht cqid).length_eq
  rw [List.length_map] at hlen
  calc (s.trace.posted cqid).length = (s.answered cqid).length := hlen
    _ ≤ (s.requests cfg cqid).length :=
      (List.subperm_of_subset (k.answered_nodup ht cqid) (k.answered_subset ht cqid)).length_le
    _ = s.origins.countP (fun o => o.any fun p => cfg.cqid p.1 = cqid) := by
      unfold Exchange.requests
      rw [List.length_filterMap_eq_countP]
      simp only [Option.isSome_filter]
    _ ≤ s.takes.countP (fun p => cfg.cqid p.1 = cqid) := k.asked cqid
    _ = (s.takes.map Prod.fst).countP (fun qid => cfg.cqid qid = cqid) := by
      rw [List.countP_map]
      rfl
    _ ≤ (s.sends.map Prod.fst).countP (fun qid => cfg.cqid qid = cqid) := hcounts.countP_le _
    _ = s.sentTo cfg cqid := by
      rw [List.countP_map]
      rfl

theorem Exchange.posts_rest (actions : List WorkerAction) :
    actions.foldl Exchange.post s = { s with cqes := (actions.foldl Exchange.post s).cqes } := by
  induction actions generalizing s with
  | nil => rfl
  | cons action rest ih =>
    rw [List.foldl_cons, ih]
    cases action with
    | fillCqResult w => rfl
    | performIo sqid sqEntry => rfl
    | bufferRelease writeBuffer bytes => rfl

/-- What a turn posts goes onto the rings, as long as there is room for it. -/
theorem RingInv.posts {posted : List IoWork} {actions : List WorkerAction}
    (inv : RingInv (cfg.cq cqid) posted (s.cqes cqid) (s.hosts cqid))
    (hroom : (posted ++ actions.filterMap (WorkerAction.posted cqid)).length ≤
      (s.hosts cqid).taken.length + (cfg.cq cqid).queueSize) :
    RingInv (cfg.cq cqid) (posted ++ actions.filterMap (WorkerAction.posted cqid))
      ((actions.foldl Exchange.post s).cqes cqid) (s.hosts cqid) := by
  induction actions generalizing s posted with
  | nil =>
    rw [List.filterMap_nil, List.append_nil]
    exact inv
  | cons action rest ih =>
    cases hw : action.posted cqid with
    | none =>
      rw [List.filterMap_cons_none hw] at hroom ⊢
      have hsame : (s.post action).cqes cqid = s.cqes cqid := by
        cases action with
        | fillCqResult w =>
          refine Function.update_of_ne ?_ _ _
          rintro rfl
          exact absurd (WorkerAction.posted_eq_some.mpr ⟨rfl, rfl⟩) (by rw [hw]; exact fun h => nomatch h)
        | performIo sqid sqEntry => rfl
        | bufferRelease writeBuffer bytes => rfl
      have hhosts := congrArg Exchange.hosts (Exchange.posts_rest (s := s) [action])
      change (s.post action).hosts = s.hosts at hhosts
      rw [← hsame, ← hhosts] at inv
      rw [← hhosts] at hroom ⊢
      exact ih inv hroom
    | some w =>
      rw [List.filterMap_cons_some hw, List.append_cons] at hroom ⊢
      obtain ⟨rfl, rfl⟩ := WorkerAction.posted_eq_some.mp hw
      have hone : posted.length < (s.hosts w.cqid).taken.length + (s.cqes w.cqid).queueSize := by
        rw [inv.size]
        rw [List.length_append, List.length_append, List.length_singleton] at hroom
        omega
      have hpost := inv.post (cfg.fresh _) w hone
      have hself : (s.post (.fillCqResult w)).cqes w.cqid = fillCqResult (s.cqes w.cqid) w :=
        Function.update_self _ _ _
      rw [← hself] at hpost
      exact ih hpost hroom

theorem Trace.posted_turn (t : Trace) (now cqid : Nat) : (t.turn now).posted cqid = t.posted cqid ++
    (workerTurn t.worker t.curr now).2.2.filterMap (WorkerAction.posted cqid) := by
  unfold Trace.posted Trace.turn
  dsimp only
  rw [List.filterMap_append, List.filterMap_map, List.filterMap_filter]
  refine congrArg (t.log.filterMap _ ++ ·) (List.filterMap_congr ?_)
  intro action _
  cases action with
  | fillCqResult w => rfl
  | performIo sqid sqEntry => rfl
  | bufferRelease writeBuffer bytes => rfl

theorem HostCq.taken_poll (host : HostCq) (cq : CompletionQueue) :
    host.taken.length ≤ (host.poll cq).taken.length := by
  unfold HostCq.poll
  dsimp only
  split
  · rw [List.length_append]
    exact Nat.le_add_right _ _
  · exact Nat.le_refl _

structure ExchangeOk (cfg : QueueConfig) (s : Exchange) : Prop where
  trace : TraceReachable s.trace
  slots : SlotsHold cfg s
  origins : OriginsOk cfg s
  rings : ∀ cqid, RingInv (cfg.cq cqid) (s.trace.posted cqid) (s.cqes cqid) (s.hosts cqid)
  room : ∀ cqid, s.sentTo cfg cqid ≤ (s.hosts cqid).taken.length + (cfg.cq cqid).queueSize

theorem init_exchangeOk (sq : Nat → Nat → NvmeRwCommand) :
    ExchangeOk cfg (Exchange.init cfg sq) where
  trace := .init
  slots := by
    refine ⟨fun _ => Nat.le_refl 0, ?_, ?_⟩
    · intro qid
      exact Nat.lt_add_left 0 (cfg.sqPos qid)
    · intro qid n cmd _ h
      cases h
  origins := by
    refine ⟨rfl, ?_, ?_, List.Pairwise.nil, ?_, fun _ => Nat.le_refl 0⟩
    · intro k p h
      cases h
    · intro k h
      cases h
    · intro qid n ret h
      cases h
  rings cqid := .start (cfg.fresh cqid)
  room _ := Nat.zero_le _

/-- The rings after a step that posts nothing and lets no host look. -/
theorem ExchangeOk.quiet (k : ExchangeOk cfg s) (trace : TraceReachable s'.trace) (slots : SlotsHold cfg s')
    (origins : OriginsOk cfg s') (hlog : s'.trace.log = s.trace.log) (hcqes : s'.cqes = s.cqes)
    (hhosts : s'.hosts = s.hosts) (hsends : s'.sends = s.sends) : ExchangeOk cfg s' := by
  refine ⟨trace, slots, origins, ?_, ?_⟩
  · intro cqid
    unfold Trace.posted
    rw [hlog, hcqes, hhosts]
    exact k.rings cqid
  · intro cqid
    unfold Exchange.sentTo
    rw [hsends, hhosts]
    exact k.room cqid

theorem ExchangeOk.submit (k : ExchangeOk cfg s) {cmd : NvmeRwCommand}
    (hslot : (s.sent qid).length + 1 < (s.results qid).length + cfg.sqSize qid)
    (hroom : s.sentTo cfg (cfg.cqid qid) <
      (s.hosts (cfg.cqid qid)).taken.length + (cfg.cq (cfg.cqid qid)).queueSize) :
    ExchangeOk cfg (s.submit cfg qid cmd) := by
  refine ⟨k.trace, k.slots.submit hslot, k.origins.submit cmd, k.rings, ?_⟩
  intro cqid
  change (s.sends ++ [_]).countP _ ≤ _
  rw [List.countP_append, List.countP_singleton]
  by_cases h : cfg.cqid qid = cqid
  · rw [if_pos (decide_eq_true h), ← h]
    exact hroom
  · rw [if_neg (fun hd => h (of_decide_eq_true hd))]
    exact k.room cqid

theorem ExchangeOk.turn (k : ExchangeOk cfg s)
    (h : s.trace.curr ≠ noEntry) {now : Nat} (hnow : s.trace.clock ≤ now) : ExchangeOk cfg (s.turn now) := by
  have htrace : TraceReachable (s.trace.turn now) := .turn k.trace h now hnow
  have hslots : SlotsHold cfg { s with trace := s.trace.turn now } := k.slots.congr rfl rfl rfl
  have horigins : OriginsOk cfg { s with trace := s.trace.turn now } := k.origins.congr rfl rfl rfl rfl
  have hposts := Exchange.posts_rest (s := { s with trace := s.trace.turn now })
    (workerTurn s.trace.worker s.trace.curr now).2.2
  unfold Exchange.turn
  rw [hposts]
  refine ⟨htrace, hslots.congr rfl rfl rfl, horigins.congr rfl rfl rfl rfl, ?_, k.room⟩
  intro cqid
  have hle := Nat.le_trans (horigins.posted_le hslots htrace cqid) (k.room cqid)
  have hinv := k.rings cqid
  rw [Trace.posted_turn] at hle ⊢
  exact RingInv.posts (s := { s with trace := s.trace.turn now }) hinv hle

theorem ExchangeOk.poll (k : ExchangeOk cfg s) (cqid : Nat) : ExchangeOk cfg (s.poll cqid) := by
  refine ⟨k.trace, k.slots.congr rfl rfl rfl, k.origins.congr rfl rfl rfl rfl, ?_, ?_⟩
  · intro i
    unfold Exchange.poll
    dsimp only
    by_cases h : i = cqid
    · subst h
      rw [Function.update_self]
      exact (k.rings i).poll (cfg.fresh i)
    · rw [Function.update_of_ne h]
      exact k.rings i
  · intro i
    refine Nat.le_trans (k.room i) (Nat.add_le_add_right ?_ _)
    change _ ≤ (Function.update s.hosts cqid _ i).taken.length
    by_cases h : i = cqid
    · subst h
      rw [Function.update_self]
      exact HostCq.taken_poll _ _
    · rw [Function.update_of_ne h]

theorem ExchangeOk.dispatcher (k : ExchangeOk cfg s)
    (h : DispatcherStep cfg s s') : ExchangeOk cfg s' := by
  cases h with
  | rewrite qid slba _ happend =>
    exact k.quiet k.trace (k.slots.rewrite happend) (k.origins.congr rfl rfl rfl rfl) rfl rfl rfl rfl
  | dispatch qid nsecsStart now ret hc hp =>
    exact k.quiet (k.trace.place _ hp) (k.slots.take hc rfl rfl rfl) (k.origins.dispatch k.slots hc)
      rfl rfl rfl rfl
  | drop qid nsecsStart now ret hc =>
    exact k.quiet k.trace (k.slots.take hc rfl rfl rfl) k.origins.drop rfl rfl rfl rfl
  | schedule sqid nsecsTarget writeBuffer buffsToRelease now hp =>
    exact k.quiet (k.trace.place (.scheduleInternalOperation ..) hp) (k.slots.congr rfl rfl rfl)
      (k.origins.schedule rfl) rfl rfl rfl rfl
  | reclaim hr =>
    exact k.quiet (.reclaim k.trace hr) (k.slots.congr rfl rfl rfl) (k.origins.congr rfl rfl rfl rfl)
      rfl rfl rfl rfl

theorem ExchangeOk.step (k : ExchangeOk cfg s)
    (h : ExchangeStep cfg s s') : ExchangeOk cfg s' := by
  cases h with
  | submit qid cmd hslot hroom => exact k.submit hslot hroom
  | dispatcher hd => exact k.dispatcher hd
  | start hc =>
    exact k.quiet (.start k.trace hc) (k.slots.congr rfl rfl rfl) (k.origins.congr rfl rfl rfl rfl)
      rfl rfl rfl rfl
  | turn hc now hnow => exact k.turn hc hnow
  | poll cqid => exact k.poll cqid

theorem ExchangeOk.run (k : ExchangeOk cfg s)
    (h : ExchangeRun cfg s s') : ExchangeOk cfg s' := by
  induction h with
  | refl => exact k
  | tail _ hstep ih => exact ih.step hstep

theorem ExchangeReachable.ok (h : ExchangeReachable cfg s) :
    ExchangeOk cfg s := by
  obtain ⟨sq, hrun⟩ := h
  exact (init_exchangeOk sq).run hrun

theorem RingInv.report {cq₀ cq : CompletionQueue} {posted : List IoWork} {host : HostCq}
    (inv : RingInv cq₀ posted cq host) :
    host.taken.map NvmeCompletion.report = (posted.map IoWork.report).take host.taken.length := by
  conv_lhs => rw [inv.taken, List.map_take, entries_report]

/-- Every completion that a host has taken from a queue tells of a command for that queue which
the handler has accepted, with its ids and status, and no command has two. -/
theorem ExchangeReachable.completions_answer (h : ExchangeReachable cfg s)
    (cqid : Nat) : ∃ answered : List (Nat × Nat), answered.Nodup ∧
      List.Forall₂ (s.Tells cfg cqid) ((s.hosts cqid).taken.map NvmeCompletion.report) answered := by
  have k := h.ok
  refine ⟨(s.answered cqid).take (s.hosts cqid).taken.length, ?_, ?_⟩
  · exact (k.origins.answered_nodup k.trace cqid).sublist (List.take_sublist _ _)
  · rw [(k.rings cqid).report]
    exact List.forall₂_take _ (k.origins.tells k.trace cqid)

theorem ExchangeReachable.step (h : ExchangeReachable cfg s) (hs : ExchangeStep cfg s s') :
    ExchangeReachable cfg s' := by
  obtain ⟨sq, hrun⟩ := h
  exact ⟨sq, hrun.tail hs⟩

theorem ExchangeReachable.dispatcher (h : ExchangeReachable cfg s) (hrun : DispatcherRun cfg s s') :
    ExchangeReachable cfg s' := by
  obtain ⟨sq, hbefore⟩ := h
  exact ⟨sq, hbefore.trans (hrun.lift id fun _ _ => ExchangeStep.dispatcher)⟩

def fourSlots : QueueConfig where
  sqSize _ := 4
  cqid := id
  cq _ := createdCq 3 fun _ => zeroCompletion
  sqPos _ := by decide
  fresh _ := createdCq_fresh fun _ _ => rfl

def readSeven : NvmeRwCommand := ⟨2, 7, 1, 0x1000, 0, 0, 0, 0⟩

theorem readSeven_enqueued : ∃ worker', placeEntry initWorker (requestWork 1 1 0 7 0 0 ⟨0, 100⟩) 100 =
      .ok (some worker') ∧
    ExchangeReachable fourSlots
      (((Exchange.init fourSlots fun _ _ => readSeven).submit fourSlots 1 readSeven).dispatch 1
        (.enqueueIoReq 1 1 0 7 0 0 ⟨0, 100⟩) ⟨0, 100⟩ worker') := by
  have h₀ : ExchangeReachable fourSlots (Exchange.init fourSlots fun _ _ => readSeven) := ⟨_, .refl⟩
  have h₁ := h₀.step (.submit 1 readSeven (by decide) (by decide))
  exact ⟨_, rfl, h₁.step (.dispatcher (.dispatch 1 0 0 ⟨0, 100⟩ (by decide) rfl))⟩

def Exchange.workerStep (s : Exchange) (now : Nat) : Exchange :=
  if s.trace.curr = noEntry then { s with trace := { s.trace with curr := s.trace.worker.ioSeq } }
  else s.turn now

theorem Exchange.turn_rest (s : Exchange) (now : Nat) :
    s.turn now = { s with trace := s.trace.turn now, cqes := (s.turn now).cqes } := by
  unfold Exchange.turn
  rw [Exchange.posts_rest]

theorem Exchange.workerStep_rest (s : Exchange) (now : Nat) : s.workerStep now =
    { s with trace := s.trace.workerStep now, cqes := (s.workerStep now).cqes } := by
  unfold Exchange.workerStep Trace.workerStep
  split
  · rfl
  · exact s.turn_rest now

theorem Exchange.workerSteps_rest (s : Exchange) (times : List Nat) : times.foldl Exchange.workerStep s =
    { s with
      trace := times.foldl Trace.workerStep s.trace
      cqes := (times.foldl Exchange.workerStep s).cqes } := by
  induction times generalizing s with
  | nil => rfl
  | cons now times ih =>
    rw [List.foldl_cons, ih, s.workerStep_rest now]
    rfl

theorem Exchange.workerSteps_run {times : List Nat} (htimes : (s.trace.clock :: times).Pairwise (· ≤ ·)) :
    ExchangeRun cfg s (times.foldl Exchange.workerStep s) := by
  induction times generalizing s with
  | nil => exact .refl
  | cons now times ih =>
    obtain ⟨hclock, hrest⟩ := List.pairwise_cons.mp htimes
    obtain ⟨hnow, htail⟩ := List.pairwise_cons.mp hrest
    rw [List.foldl_cons]
    by_cases hcurr : s.trace.curr = noEntry
    · have hstep : s.workerStep now =
          { s with trace := { s.trace with curr := s.trace.worker.ioSeq } } := if_pos hcurr
      rw [hstep]
      refine .head (.start hcurr) (ih ?_)
      exact List.pairwise_cons.mpr ⟨fun t ht => hclock t (List.mem_cons_of_mem now ht), htail⟩
    · have hstep : s.workerStep now = s.turn now := if_neg hcurr
      rw [hstep]
      refine .head (.turn hcurr now (hclock now List.mem_cons_self)) (ih ?_)
      rw [s.turn_rest now]
      exact List.pairwise_cons.mpr ⟨hnow, htail⟩

/-- The host of one queue looks `m` times. -/
def Exchange.polls (s : Exchange) (cqid m : Nat) : Exchange := (fun s => s.poll cqid)^[m] s

theorem RingInv.poll_length {cq₀ cq : CompletionQueue} {posted : List IoWork} {host : HostCq}
    (k : FreshRing cq₀) (inv : RingInv cq₀ posted cq host) :
    (host.poll cq).taken.length = min (host.taken.length + 1) posted.length := by
  have hiff := inv.poll_iff k
  have hbehind := inv.behind
  unfold HostCq.poll
  dsimp only
  split
  · rename_i htag
    have hlt := hiff.mp htag
    rw [List.length_append, List.length_singleton]
    omega
  · rename_i htag
    have hnot : ¬ host.taken.length < posted.length := fun h => htag (hiff.mpr h)
    omega

theorem ExchangeOk.polls (k : ExchangeOk cfg s) (cqid m : Nat) :
    ExchangeOk cfg (s.polls cqid m) ∧ (s.polls cqid m).trace = s.trace ∧
      ((s.polls cqid m).hosts cqid).taken.length =
        min ((s.hosts cqid).taken.length + m) (s.trace.posted cqid).length := by
  induction m generalizing s with
  | zero => exact ⟨k, rfl, (Nat.min_eq_left (k.rings cqid).behind).symm⟩
  | succ m ih =>
    obtain ⟨k', htrace, hlen⟩ := ih (k.poll cqid)
    have hone : ((s.poll cqid).hosts cqid).taken.length =
        min ((s.hosts cqid).taken.length + 1) (s.trace.posted cqid).length := by
      have hself : (s.poll cqid).hosts cqid = (s.hosts cqid).poll (s.cqes cqid) := Function.update_self _ _ _
      rw [hself]
      exact (k.rings cqid).poll_length (cfg.fresh cqid)
    refine ⟨k', htrace, hlen.trans ?_⟩
    change min (_ + m) (s.trace.posted cqid).length = _
    rw [hone]
    omega

/-- The worker by itself finishes everything that has been enqueued. -/
theorem TraceReachable.all_logged {t : Trace} (h : TraceReachable t) {times : List Nat}
    (htimes : (t.clock :: times).Pairwise (· ≤ ·))
    (hlate : ∀ u ∈ times, ∀ w ∈ t.enqueued, w.nsecsTarget ≤ u)
    (hlen : 2 * nrMaxParallelIo + 1 ≤ times.length) {n : Nat} (hn : n < t.enqueued.length) :
    ∃ f ∈ (times.foldl Trace.workerStep t).log, f.owner = some n := by
  obtain ⟨fresh, used, io, k⟩ := h.ok
  have hs := workerSteps_stepped t times
  have hafter := h.workerSteps htimes
  obtain ⟨fresh', used', io', k'⟩ := hafter.ok
  rcases hafter.allCarried n (by rw [hs.enqueued]; exact hn) with hr | ⟨e, he, howner⟩
  · exact k'.reclaimedDone n hr
  · rw [k'.lists.inFlight_eq] at he
    have hio : io' = io := (k'.lists.unique (hs.lists _ _ k.lists)).2
    have hdone := k.all_completed hlate hlen e (hio ▸ he)
    rw [← howner]
    exact (k'.done e (List.mem_append_right used' he)).mp hdone

/-- From every state that can be reached: when the worker has gone over its list twice after all
target times, and the host of a queue has then looked often enough, it has been told of every
accepted command for that queue, once. -/
theorem all_answered (h : ExchangeReachable cfg s) (cqid : Nat)
    {times : List Nat} (htimes : (s.trace.clock :: times).Pairwise (· ≤ ·))
    (hlate : ∀ t ∈ times, ∀ w ∈ s.trace.enqueued, w.nsecsTarget ≤ t)
    (hlen : 2 * nrMaxParallelIo + 1 ≤ times.length) {m : Nat} (hm : s.sentTo cfg cqid ≤ m) :
    ∃ answered : List (Nat × Nat), answered.Nodup ∧
      List.Forall₂ (s.Tells cfg cqid)
        ((((times.foldl Exchange.workerStep s).polls cqid m).hosts cqid).taken.map NvmeCompletion.report)
        answered ∧
      ∀ qid n, (qid, n) ∈ answered ↔ cfg.cqid qid = cqid ∧ ∃ ret, (s.results qid)[n]? = some (some ret) := by
  have k := h.ok
  have k₁ := k.run (Exchange.workerSteps_run htimes)
  have hrest := s.workerSteps_rest times
  generalize times.foldl Exchange.workerStep s = s₁ at k₁ hrest
  have htells : ∀ told p, s₁.Tells cfg cqid told p → s.Tells cfg cqid told p := by
    rw [hrest]
    exact fun _ _ h => ⟨h.queue, h.told⟩
  have hresults : s₁.results = s.results := Exchange.results_congr (by rw [hrest])
  have htrace₁ : s₁.trace = times.foldl Trace.workerStep s.trace := by rw [hrest]
  have hsent : s₁.sentTo cfg cqid = s.sentTo cfg cqid := by
    rw [hrest]
    rfl
  obtain ⟨k₂, htrace, htaken⟩ := k₁.polls cqid m
  have hposted := k₁.origins.posted_le k₁.slots k₁.trace cqid
  have hall : ((s₁.polls cqid m).hosts cqid).taken.length = (s₁.trace.posted cqid).length := by
    rw [hsent] at hposted
    omega
  refine ⟨s₁.answered cqid, k₁.origins.answered_nodup k₁.trace cqid, ?_, ?_⟩
  · rw [(k₂.rings cqid).report, htrace, hall]
    have hlength : ((s₁.trace.posted cqid).map IoWork.report).length = (s₁.trace.posted cqid).length :=
      List.length_map _
    rw [← hlength, List.take_length]
    exact (k₁.origins.tells k₁.trace cqid).imp htells
  · intro qid n
    refine ⟨fun hp => ?_, ?_⟩
    · obtain ⟨-, _, ht⟩ := k₁.origins.of_answered k₁.trace hp
      obtain ⟨_, ret, -, hret, -⟩ := ht.told
      exact ⟨ht.queue, ret, hresults ▸ hret⟩
    · rintro ⟨rfl, ret, hret⟩
      obtain ⟨i, hi⟩ := List.getElem?_of_mem (k₁.origins.every qid n ret (hresults ▸ hret))
      obtain ⟨f, hf, howner⟩ : ∃ f ∈ s₁.trace.log, f.owner = some i := by
        rw [htrace₁]
        refine k.trace.all_logged htimes hlate hlen ?_
        rw [← (workerSteps_stepped s.trace times).enqueued, ← htrace₁, ← k₁.origins.length]
        exact (List.getElem?_eq_some_iff.mp hi).1
      exact k₁.origins.answered_of_logged k₁.trace hi hf howner

/-- The host is told of the command once the clock stands at 120. -/
theorem all_answered_read : ∃ s : Exchange, ExchangeReachable fourSlots s ∧ (s.hosts 1).taken = [] ∧
    ∃ times : List Nat, 0 < (((times.foldl Exchange.workerStep s).polls 1 1).hosts 1).taken.length := by
  obtain ⟨worker', hplace, h⟩ := readSeven_enqueued
  cases hplace
  have hclock : (0 :: List.replicate (2 * nrMaxParallelIo + 1) 120).Pairwise (· ≤ ·) :=
    List.pairwise_cons.mpr ⟨fun _ _ => Nat.zero_le _, List.pairwise_replicate_of_refl⟩
  refine ⟨_, h, rfl, List.replicate (2 * nrMaxParallelIo + 1) 120, ?_⟩
  obtain ⟨answered, -, htells, hall⟩ := all_answered h 1 hclock
    (by
      intro t ht w hw
      rw [List.eq_of_mem_replicate ht]
      obtain rfl := List.mem_singleton.mp hw
      decide)
    (Nat.le_of_eq List.length_replicate.symm) (Nat.le_refl 1)
  have hlen := htells.length_eq
  rw [List.length_map] at hlen
  rw [hlen]
  exact List.length_pos_of_mem ((hall 1 0).mpr ⟨rfl, ⟨0, 100⟩, rfl⟩)

end NVMeVirt
