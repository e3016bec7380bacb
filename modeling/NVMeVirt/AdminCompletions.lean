import NVMeVirt.Admin
import NVMeVirt.Lib.Ring

/-!
# Completions of the admin queue

Which requests post a completion, and what a call of `nvmev_proc_admin_sq` leaves in the
admin completion queue.
-/

namespace NVMeVirt
set_option autoImplicit false
open Outcome Ring

variable {v v' : NvmevDev} {queue : AdminQueue} {cmd : NvmeAdminCommand} {eid : Nat} {addr : Nat × Nat}
  {cqe : NvmeCompletion}

/-- Where the next completion goes, with the phase it carries. -/
def AdminQueue.cursor (queue : AdminQueue) : Cursor := ⟨queue.cqHead, queue.phase⟩

theorem AdminQueue.advance_cursor (queue : AdminQueue) :
    queue.advance.cursor = queue.cursor.next queue.cqDepth := by
  unfold advance cursor Cursor.next
  split
  · rfl
  · rfl

theorem AdminQueue.advance_shape (queue : AdminQueue) :
    queue.advance.sqDepth = queue.sqDepth ∧ queue.advance.cqDepth = queue.cqDepth ∧
    queue.advance.nvmeSq = queue.nvmeSq ∧ queue.advance.nvmeCq = queue.nvmeCq := by
  unfold advance
  split
  · exact ⟨rfl, rfl, rfl, rfl⟩
  · exact ⟨rfl, rfl, rfl, rfl⟩

/-- A completion is never without a trace, not even in a queue of one entry. -/
theorem AdminQueue.advance_ne (queue : AdminQueue) : queue.advance ≠ queue := by
  intro h
  have hc : queue.advance.cursor = queue.cursor := by rw [h]
  rw [advance_cursor] at hc
  unfold Cursor.next cursor at hc
  split at hc
  · have hp := congrArg Cursor.phase hc
    cases hq : queue.phase with
    | false => simp [hq] at hp
    | true => simp [hq] at hp
  · have hs := congrArg Cursor.slot hc
    simp at hs

/-- The request at `eid` has posted `cqe` and nothing else. -/
structure Posted (queue : AdminQueue) (cmd : NvmeAdminCommand) (addr : Nat × Nat) (eid : Nat)
    (v : NvmevDev) (cqe : NvmeCompletion) (v' : NvmevDev) : Prop where
  adminQ : v'.adminQ = some queue.advance
  adminCq : v'.mem.adminCq = (v.mem.setAdminCq addr.1 addr.2 cqe).adminCq
  adminSq : v'.mem.adminSq = v.mem.adminSq
  ns : v'.ns = v.ns
  commandId : cqe.commandId = cmd.commandId
  sqHead : cqe.sqHead = eid % 2^16
  sqId : cqe.sqId = 0
  phase : cqe.status % 2 = queue.phase.toNat

/-- The request at `eid` takes the device from `v` to `v'` with the one completion `cqe`. -/
def PostsOne (eid : Nat) (v : NvmevDev) (cqe : NvmeCompletion) (v' : NvmevDev) : Prop :=
  ∃ queue cmd addr, v.adminQ = some queue ∧ v.sqEntry eid = .ok cmd ∧
    cqEntryAddr queue queue.cqHead = .ok addr ∧ Posted queue cmd addr eid v cqe v'

theorem PostsOne.ne (h : PostsOne eid v cqe v') : v' ≠ v := by
  obtain ⟨queue, cmd, addr, hq, -, -, p⟩ := h
  intro heq
  have hadv := p.adminQ
  rw [heq, hq] at hadv
  exact queue.advance_ne (Option.some.inj hadv).symm

/-- A device in which a handler has not touched the admin queue. -/
structure SameAdmin (v w : NvmevDev) : Prop where
  adminQ : w.adminQ = v.adminQ
  adminSq : w.mem.adminSq = v.mem.adminSq
  adminCq : w.mem.adminCq = v.mem.adminCq
  ns : w.ns = v.ns

theorem SameAdmin.refl (v : NvmevDev) : SameAdmin v v := ⟨rfl, rfl, rfl, rfl⟩

theorem SameAdmin.sqEntry {w : NvmevDev} (h : SameAdmin v w) (eid : Nat) : w.sqEntry eid = v.sqEntry eid := by
  unfold NvmevDev.sqEntry NvmevDev.queue
  rw [h.adminQ, h.adminSq]

theorem status_phase (phase : Bool) (ret : Nat) : (phase.toNat + ret * 2) % 2^16 % 2 = phase.toNat := by
  rw [Nat.mod_mod_of_dvd _ (by decide), Nat.add_mul_mod_self_right]
  cases phase with
  | false => rfl
  | true => rfl

/-- The entry at `eid` can be read and there is a place for its completion. -/
structure Ready (eid : Nat) (v : NvmevDev) (queue : AdminQueue) (cmd : NvmeAdminCommand)
    (addr : Nat × Nat) : Prop where
  adminQ : v.adminQ = some queue
  entry : v.sqEntry eid = .ok cmd
  place : cqEntryAddr queue queue.cqHead = .ok addr

/-- The device with a completion written and the head moved. -/
def NvmevDev.post (w : NvmevDev) (queue : AdminQueue) (addr : Nat × Nat) (cqe : NvmeCompletion) : NvmevDev :=
  { w with mem := w.mem.setAdminCq addr.1 addr.2 cqe, adminQ := some queue.advance }

theorem makeCqEntryResults_posts (k : Ready eid v queue cmd addr) {w : NvmevDev} (same : SameAdmin v w)
    (ret result0 result1 : Nat) : ∃ v' cqe, makeCqEntryResults eid ret result0 result1 w = .ok v' ∧
      Posted queue cmd addr eid v cqe v' := by
  refine ⟨w.post queue addr (adminCompletion queue.phase cmd eid ret result0 result1),
    adminCompletion queue.phase cmd eid ret result0 result1, ?_, {
    adminQ := rfl
    adminCq := by simp only [NvmevDev.post, HostMem.setAdminCq, same.adminCq]
    adminSq := same.adminSq
    ns := same.ns
    commandId := rfl
    sqHead := rfl
    sqId := rfl
    phase := status_phase _ _ }⟩
  unfold makeCqEntryResults NvmevDev.queue
  rw [same.sqEntry, same.adminQ, k.adminQ, k.entry]
  simp only [ok_bind, k.place, pure_eq_ok, NvmevDev.post]

/-- The identify commands about one namespace find it, and a zoned one says that it is zoned. -/
def NamespaceFound (ns : List IdentifyNs) (cmd : NvmeAdminCommand) : Prop :=
  cmd.cns = 0x00 ∨ cmd.cns = 0x03 ∨ cmd.cns = 0x05 →
    ∃ n, ns[u32 (cmd.nsid + (2^32 - 1))]? = some n ∧ (cmd.cns = 0x05 → n.zns ≠ none → n.csi = nvmeCsiZns)

/-- What a request must be for its handler to reach its completion: no abort, and no index or
length outside of what the device has. -/
def Handled (ns : List IdentifyNs) (cmd : NvmeAdminCommand) : Prop :=
  match adminOpcode cmd.opcode with
  | .deleteSq | .createSq | .deleteCq | .createCq => cmd.qid ≤ nrMaxIoQueue
  | .getLogPage => (cmd.lid = nvmeLogSmart → logLen cmd ≤ smartLogSize) ∧
      (cmd.lid = nvmeLogCmdEffects → logLen cmd ≤ effectsLogSize)
  | .identify => NamespaceFound ns cmd
  | .abortCmd => False
  | .setFeatures | .getFeatures | .asyncEvent | .unhandled => True

/-- The two ways a request can end: at its completion, or with a fault before it. -/
def RequestEnds (h : Prop) (eid : Nat) (v : NvmevDev) (x : Except Fault NvmevDev) : Prop :=
  (h ∧ ∃ ret result0 result1 w, SameAdmin v w ∧ x = makeCqEntryResults eid ret result0 result1 w) ∨
  (¬ h ∧ ∃ e, x = .error e)

theorem RequestEnds.congr {h h' : Prop} {x : Except Fault NvmevDev} (r : RequestEnds h eid v x)
    (hh : h ↔ h') : RequestEnds h' eid v x := by
  unfold RequestEnds
  rw [← hh]
  exact r

theorem makeCqEntryResults_ends {w : NvmevDev} (same : SameAdmin v w) (ret result0 result1 : Nat) :
    RequestEnds True eid v (makeCqEntryResults eid ret result0 result1 w) :=
  Or.inl ⟨trivial, ret, result0, result1, w, same, rfl⟩

/-- A handler that checks something first gets to its completion exactly when the check lets it. -/
theorem checked_ends {α : Type} {check : Except Fault α} {h : Prop} (hcheck : (∃ a, check = .ok a) ↔ h)
    {w : α → NvmevDev} (same : ∀ a, SameAdmin v (w a)) (ret result0 result1 : Nat) :
    RequestEnds h eid v (check >>= fun a => makeCqEntryResults eid ret result0 result1 (w a)) := by
  cases hc : check with
  | ok a => exact Or.inl ⟨hcheck.mp ⟨a, hc⟩, ret, result0, result1, w a, same a, rfl⟩
  | error e =>
    refine Or.inr ⟨?_, e, rfl⟩
    intro hh
    obtain ⟨a, ha⟩ := hcheck.mpr hh
    rw [hc] at ha
    cases ha

theorem makeCqEntry_tables {ret : Nat} (h : makeCqEntry eid ret v = .ok v') :
    v'.sqes = v.sqes ∧ v'.cqes = v.cqes ∧ v'.dbs = v.dbs ∧ v'.oldDbs = v.oldDbs := by
  obtain ⟨_, -, h⟩ := bind_eq_ok.mp h
  obtain ⟨_, -, h⟩ := bind_eq_ok.mp h
  obtain ⟨_, -, h⟩ := bind_eq_ok.mp h
  cases h
  exact ⟨rfl, rfl, rfl, rfl⟩

theorem queueIndex_eq {qid i : Nat} (h : queueIndex qid = .ok i) : i = qid := by
  unfold queueIndex at h
  split at h
  · exact (Except.ok.inj h).symm
  · cases h

/-- What `__nvmev_admin_create_cq` puts into the table. -/
theorem adminCreateCq_created (hcmd : v.sqEntry eid = .ok cmd) (h : adminCreateCq eid v = .ok v') :
    v'.cqes cmd.qid = some (createdCq cmd.qsize (v.mem.ioCq cmd.prp1)) := by
  unfold adminCreateCq at h
  rw [hcmd, ok_bind] at h
  obtain ⟨qid, hqid, h⟩ := bind_eq_ok.mp h
  obtain rfl := queueIndex_eq hqid
  rw [(makeCqEntry_tables h).2.1]
  exact Function.update_self _ _ _

/-- What `__nvmev_admin_create_sq` puts into the table and into the doorbells. -/
theorem adminCreateSq_created (hcmd : v.sqEntry eid = .ok cmd) (h : adminCreateSq eid v = .ok v') :
    v'.sqes cmd.qid = some (createdSq cmd.qsize cmd.cqid (v.mem.ioSq cmd.prp1)) ∧
    v'.dbs (cmd.qid * 2) = 0 ∧ v'.oldDbs (cmd.qid * 2) = 0 := by
  unfold adminCreateSq at h
  rw [hcmd, ok_bind] at h
  obtain ⟨qid, hqid, h⟩ := bind_eq_ok.mp h
  obtain rfl := queueIndex_eq hqid
  obtain ⟨hsqes, -, hdbs, hold⟩ := makeCqEntry_tables h
  rw [hsqes, hdbs, hold]
  exact ⟨Function.update_self _ _ _, Function.update_self _ _ _, Function.update_self _ _ _⟩

theorem queueIndex_ok (qid : Nat) : (∃ a, queueIndex qid = .ok a) ↔ qid ≤ nrMaxIoQueue := exists_ite_ok

theorem copyLog_ok (size len : Nat) (page : AdminPage) :
    (∃ a, copyLog size len page = .ok a) ↔ len ≤ size := exists_ite_ok

theorem logPage_ok (cmd : NvmeAdminCommand) : (∃ a, logPage cmd = .ok a) ↔
    (cmd.lid = nvmeLogSmart → logLen cmd ≤ smartLogSize) ∧
      (cmd.lid = nvmeLogCmdEffects → logLen cmd ≤ effectsLogSize) := by
  unfold logPage
  by_cases hs : cmd.lid = nvmeLogSmart
  · have hne : cmd.lid ≠ nvmeLogCmdEffects := by
      rw [hs]
      decide
    rw [if_pos hs, copyLog_ok]
    exact ⟨fun h => ⟨fun _ => h, fun he => absurd he hne⟩, fun h => h.1 hs⟩
  · rw [if_neg hs]
    by_cases he : cmd.lid = nvmeLogCmdEffects
    · rw [if_pos he, copyLog_ok]
      exact ⟨fun h => ⟨fun h' => absurd h' hs, fun _ => h⟩, fun h => h.2 he⟩
    · rw [if_neg he]
      exact ⟨fun _ => ⟨fun h' => absurd h' hs, fun h' => absurd h' he⟩, fun _ => ⟨_, rfl⟩⟩

theorem identifyNs_ok (v : NvmevDev) (cmd : NvmeAdminCommand) (n : IdentifyNs) :
    v.identifyNs cmd = .ok n ↔ v.ns[u32 (cmd.nsid + (2^32 - 1))]? = some n := by
  unfold NvmevDev.identifyNs
  cases v.ns[u32 (cmd.nsid + (2^32 - 1))]? with
  | none => simp
  | some m => simp

theorem identifyNs_ends (page : IdentifyNs → AdminPage) : RequestEnds
    (∃ n, v.ns[u32 (cmd.nsid + (2^32 - 1))]? = some n) eid v
    (v.identifyNs cmd >>= fun n => makeCqEntry eid nvmeScSuccess (v.fill cmd.prp1 (page n))) :=
  checked_ends (exists_congr fun n => identifyNs_ok v cmd n)
    (w := fun n => v.fill cmd.prp1 (page n)) (fun _ => ⟨rfl, rfl, rfl, rfl⟩) _ 0 0

section Identify
variable (hcmd : v.sqEntry eid = .ok cmd)
include hcmd

theorem adminIdentifyZnsNamespace_ends : RequestEnds
    (∃ n, v.ns[u32 (cmd.nsid + (2^32 - 1))]? = some n ∧ (n.zns ≠ none → n.csi = nvmeCsiZns))
    eid v (adminIdentifyZnsNamespace eid v) := by
  unfold adminIdentifyZnsNamespace
  rw [hcmd, ok_bind]
  cases hns : v.identifyNs cmd with
  | error e =>
    refine Or.inr ⟨?_, e, rfl⟩
    rintro ⟨n, hn, -⟩
    rw [(identifyNs_ok v cmd n).mpr hn] at hns
    cases hns
  | ok n =>
    have hn := (identifyNs_ok v cmd n).mp hns
    have huniq : (∃ m, v.ns[u32 (cmd.nsid + (2^32 - 1))]? = some m ∧ (m.zns ≠ none → m.csi = nvmeCsiZns)) ↔
        (n.zns ≠ none → n.csi = nvmeCsiZns) := by
      constructor
      · rintro ⟨m, hm, h⟩
        obtain rfl := Option.some.inj (hn.symm.trans hm)
        exact h
      · exact fun h => ⟨n, hn, h⟩
    rw [ok_bind]
    unfold RequestEnds
    rw [huniq]
    cases hz : n.zns with
    | none => exact Or.inl ⟨fun h => absurd rfl h, _, _, _, v, .refl v, rfl⟩
    | some zpp =>
      by_cases hcsi : n.csi = nvmeCsiZns
      · refine Or.inl ⟨fun _ => hcsi, nvmeScSuccess, 0, 0, v.fill cmd.prp1 (idZnsNs zpp),
          ⟨rfl, rfl, rfl, rfl⟩, ?_⟩
        rw [nvmevAssert_true hcsi]
        rfl
      · refine Or.inr ⟨fun h => hcsi (h (by simp)), .assertion, ?_⟩
        rw [nvmevAssert_false hcsi]
        rfl

theorem adminIdentify_ends :
    RequestEnds (NamespaceFound v.ns cmd) eid v (adminIdentify eid v) := by
  -- the selectors that need no namespace
  have hfree : ∀ {x : Except Fault NvmevDev}, RequestEnds True eid v x →
      cmd.cns ≠ 0x00 → cmd.cns ≠ 0x03 → cmd.cns ≠ 0x05 →
      RequestEnds (NamespaceFound v.ns cmd) eid v x := by
    intro x r h0 h3 h5
    refine r.congr ⟨fun _ h => ?_, fun _ => trivial⟩
    rcases h with h | h | h
    · exact absurd h h0
    · exact absurd h h3
    · exact absurd h h5
  unfold adminIdentify
  rw [hcmd, ok_bind]
  by_cases h0 : cmd.cns = 0x00
  · rw [if_pos h0]
    unfold adminIdentifyNamespace
    rw [hcmd, ok_bind]
    refine (identifyNs_ends fun ns => .idNs 6 0 (ns.size / lbaSize) (ns.size / lbaSize)
      (ns.size / lbaSize)).congr ?_
    simp [NamespaceFound, h0]
  · rw [if_neg h0]
    by_cases h1 : cmd.cns = 0x01
    · rw [if_pos h1]
      unfold adminIdentifyCtrl
      rw [hcmd, ok_bind]
      refine hfree (makeCqEntryResults_ends ?_ _ _ _) h0 (by omega) (by omega)
      exact ⟨rfl, rfl, rfl, rfl⟩
    · rw [if_neg h1]
      by_cases h2 : cmd.cns = 0x02
      · rw [if_pos h2]
        unfold adminIdentifyNamespaces
        rw [hcmd, ok_bind]
        refine hfree (makeCqEntryResults_ends ?_ _ _ _) h0 (by omega) (by omega)
        exact ⟨rfl, rfl, rfl, rfl⟩
      · rw [if_neg h2]
        by_cases h3 : cmd.cns = 0x03
        · rw [if_pos h3]
          unfold adminIdentifyNamespaceDesc
          rw [hcmd, ok_bind]
          refine (identifyNs_ends fun ns => .nsDesc 4 1 ns.csi).congr ?_
          simp [NamespaceFound, h3]
        · rw [if_neg h3]
          by_cases h5 : cmd.cns = 0x05
          · rw [if_pos h5]
            refine (adminIdentifyZnsNamespace_ends hcmd).congr ?_
            simp [NamespaceFound, h5]
          · rw [if_neg h5]
            by_cases h6 : cmd.cns = 0x06
            · rw [if_pos h6]
              unfold adminIdentifyZnsCtrl
              rw [hcmd, ok_bind]
              refine hfree (makeCqEntryResults_ends ?_ _ _ _) h0 h3 h5
              exact ⟨rfl, rfl, rfl, rfl⟩
            · rw [if_neg h6]
              exact hfree (makeCqEntryResults_ends (.refl v) _ _ _) h0 h3 h5

end Identify

/-- One request: it gets to its completion exactly when it is handled. -/
theorem procAdminReq_ends (hcmd : v.sqEntry eid = .ok cmd) (hno : adminOpcode cmd.opcode ≠ .abortCmd) :
    RequestEnds (Handled v.ns cmd) eid v (procAdminReq eid v) := by
  unfold procAdminReq Handled
  rw [hcmd, ok_bind]
  cases hop : adminOpcode cmd.opcode with
  | deleteSq =>
    dsimp only
    unfold adminDeleteSq
    rw [hcmd, ok_bind]
    exact checked_ends (queueIndex_ok cmd.qid) (w := fun q => v.setSq q none)
      (fun _ => ⟨rfl, rfl, rfl, rfl⟩) _ 0 0
  | createSq =>
    dsimp only
    unfold adminCreateSq
    rw [hcmd, ok_bind]
    exact checked_ends (queueIndex_ok cmd.qid) (w := fun q =>
      (v.setSq q (some (createdSq cmd.qsize cmd.cqid (v.mem.ioSq cmd.prp1)))).clearDb (q * 2))
      (fun _ => ⟨rfl, rfl, rfl, rfl⟩) _ 0 0
  | getLogPage =>
    dsimp only
    unfold adminGetLogPage
    rw [hcmd, ok_bind]
    exact checked_ends (logPage_ok cmd) (w := fun page => v.fill cmd.prp1 page)
      (fun _ => ⟨rfl, rfl, rfl, rfl⟩) _ 0 0
  | deleteCq =>
    dsimp only
    unfold adminDeleteCq
    rw [hcmd, ok_bind]
    exact checked_ends (queueIndex_ok cmd.qid) (w := fun q => v.setCq q none)
      (fun _ => ⟨rfl, rfl, rfl, rfl⟩) _ 0 0
  | createCq =>
    dsimp only
    unfold adminCreateCq
    rw [hcmd, ok_bind]
    exact checked_ends (queueIndex_ok cmd.qid) (w := fun q =>
      (v.setCq q (some (createdCq cmd.qsize (v.mem.ioCq cmd.prp1)))).clearDb (q * 2 + 1))
      (fun _ => ⟨rfl, rfl, rfl, rfl⟩) _ 0 0
  | identify => exact adminIdentify_ends hcmd
  | abortCmd => exact absurd hop hno
  | setFeatures =>
    dsimp only
    unfold adminSetFeatures
    rw [hcmd, ok_bind]
    split
    · refine makeCqEntryResults_ends ?_ _ _ _
      exact ⟨rfl, rfl, rfl, rfl⟩
    · exact makeCqEntryResults_ends (.refl v) _ _ _
  | getFeatures =>
    dsimp only
    unfold adminGetFeatures
    rw [hcmd, ok_bind]
    split
    · exact makeCqEntryResults_ends (.refl v) _ _ _
    · exact makeCqEntryResults_ends (.refl v) _ _ _
  | asyncEvent => exact makeCqEntryResults_ends (.refl v) _ _ _
  | unhandled => exact makeCqEntryResults_ends (.refl v) _ _ _

theorem procAdminReq_abort (hcmd : v.sqEntry eid = .ok cmd) (h : adminOpcode cmd.opcode = .abortCmd) :
    procAdminReq eid v = .ok v := by
  unfold procAdminReq
  rw [hcmd, ok_bind, h]

theorem NvmevDev.queue_eq (h : v.queue = .ok queue) : v.adminQ = some queue := by
  unfold NvmevDev.queue at h
  split at h
  · cases h
  · rename_i heq
    rw [heq, Except.ok.inj h]

/-- A request that returns was an abort, or it was handled and has posted its completion. -/
theorem procAdminReq_cases (h : procAdminReq eid v = .ok v') : ∃ queue cmd, v.adminQ = some queue ∧
    v.sqEntry eid = .ok cmd ∧ ((adminOpcode cmd.opcode = .abortCmd ∧ v' = v) ∨
      (adminOpcode cmd.opcode ≠ .abortCmd ∧ Handled v.ns cmd ∧ ∃ addr cqe,
        cqEntryAddr queue queue.cqHead = .ok addr ∧ Posted queue cmd addr eid v cqe v')) := by
  obtain ⟨cmd, hcmd, -⟩ := bind_eq_ok.mp h
  obtain ⟨queue, hqueue, -⟩ := bind_eq_ok.mp hcmd
  have hq := NvmevDev.queue_eq hqueue
  refine ⟨queue, cmd, hq, hcmd, ?_⟩
  by_cases habort : adminOpcode cmd.opcode = .abortCmd
  · rw [procAdminReq_abort hcmd habort] at h
    exact Or.inl ⟨habort, (Except.ok.inj h).symm⟩
  · refine Or.inr ⟨habort, ?_⟩
    rcases procAdminReq_ends hcmd habort with ⟨hh, ret, result0, result1, w, same, heq⟩ | ⟨-, e, he⟩
    · rw [heq] at h
      -- the completion has found its place
      obtain ⟨queue', hqueue', h'⟩ := bind_eq_ok.mp h
      obtain ⟨_, -, h'⟩ := bind_eq_ok.mp h'
      obtain ⟨addr, haddr, -⟩ := bind_eq_ok.mp h'
      have hq' := NvmevDev.queue_eq hqueue'
      rw [same.adminQ, hq] at hq'
      cases hq'
      obtain ⟨v₁, cqe, h₁, p⟩ := makeCqEntryResults_posts ⟨hq, hcmd, haddr⟩ same ret result0 result1
      obtain rfl := Except.ok.inj (h.symm.trans h₁)
      exact ⟨hh, addr, cqe, haddr, p⟩
    · rw [he] at h
      cases h

theorem Posted.sqEntry_eq (hq : v.adminQ = some queue) (p : Posted queue cmd addr eid v cqe v') (i : Nat) :
    v'.sqEntry i = v.sqEntry i := by
  unfold NvmevDev.sqEntry NvmevDev.queue sqEntryAddr
  rw [p.adminQ, hq, p.adminSq]
  simp only [ok_bind, queue.advance_shape.2.2.1]

/-- The device has an admin queue whose arrays hold all its entries; `AQA` gives at most `2^12`. -/
structure QueueReady (v : NvmevDev) (queue : AdminQueue) : Prop where
  adminQ : v.adminQ = some queue
  sq : ∀ i < queue.sqDepth, ∃ addr, sqEntryAddr queue i = .ok addr
  cq : ∀ i < queue.cqDepth, ∃ addr, cqEntryAddr queue i = .ok addr
  head : queue.cqHead < queue.cqDepth
  depth : queue.sqDepth ≤ 2^12

/-- The requests in `n` slots from `curr` on each post one completion, in turn. -/
inductive PostsInTurn (sqDepth : Nat) :
    Nat → Nat → NvmevDev → List NvmeCompletion → NvmevDev → Prop where
  | done (curr : Nat) (v : NvmevDev) : PostsInTurn sqDepth 0 curr v [] v
  | post {n curr : Nat} {v v₁ v' : NvmevDev} {cqe : NvmeCompletion} {cqes : List NvmeCompletion} :
    procAdminReq curr v = .ok v₁ → PostsOne curr v cqe v₁ →
    PostsInTurn sqDepth n (if curr + 1 = sqDepth then 0 else curr + 1) v₁ cqes v' →
    PostsInTurn sqDepth (n + 1) curr v (cqe :: cqes) v'

/-- The completion for the entry in `slot`, posted with the cursor at `c`. -/
structure CompletionFor (v : NvmevDev) (slot : Nat) (c : Cursor) (cqe : NvmeCompletion) : Prop where
  commandId : ∃ cmd, v.sqEntry slot = .ok cmd ∧ cqe.commandId = cmd.commandId
  sqHead : cqe.sqHead = slot
  sqId : cqe.sqId = 0
  phase : cqe.status % 2 = c.phase.toNat

namespace QueueReady
variable (kq : QueueReady v queue)
include kq

theorem ready {eid : Nat} (heid : eid < queue.sqDepth) : ∃ cmd addr, Ready eid v queue cmd addr := by
  obtain ⟨place, hplace⟩ := kq.sq eid heid
  obtain ⟨addr, haddr⟩ := kq.cq queue.cqHead kq.head
  refine ⟨v.mem.adminSq place.1 place.2, addr, kq.adminQ, ?_, haddr⟩
  unfold NvmevDev.sqEntry NvmevDev.queue
  rw [kq.adminQ]
  simp only [ok_bind, hplace, pure_eq_ok]

theorem advance (p : Posted queue cmd addr eid v cqe v') : QueueReady v' queue.advance := by
  obtain ⟨hsq, hcq, hsqPages, hcqPages⟩ := queue.advance_shape
  refine ⟨p.adminQ, ?_, ?_, ?_, ?_⟩
  · intro i hi
    unfold sqEntryAddr
    rw [hsqPages]
    exact kq.sq i (hsq ▸ hi)
  · intro i hi
    unfold cqEntryAddr
    rw [hcqPages]
    exact kq.cq i (hcq ▸ hi)
  · have hlt := kq.head
    rw [hcq]
    unfold AdminQueue.advance
    split
    · exact Nat.zero_lt_of_lt hlt
    · dsimp only
      omega
  · rw [hsq]
    exact kq.depth

end QueueReady

theorem PostsInTurn.handled {n curr : Nat} {posted : List NvmeCompletion} (kq : QueueReady v queue)
    (hcurr : curr < queue.sqDepth) (h : PostsInTurn queue.sqDepth n curr v posted v') :
    ∀ k < n, ∀ cmd, v.sqEntry ((curr + k) % queue.sqDepth) = .ok cmd → Handled v.ns cmd := by
  induction n generalizing curr v queue posted with
  | zero => exact fun k hk => absurd hk (Nat.not_lt_zero k)
  | succ n ih =>
    cases h with
    | post h₁ hone hrest =>
      obtain ⟨queue₁, cmd, hq, hentry, ⟨-, hsame⟩ | ⟨-, hcmd, addr, cqe, -, p⟩⟩ := procAdminReq_cases h₁
      · exact absurd hsame hone.ne
      · obtain rfl := Option.some.inj (kq.adminQ.symm.trans hq)
        intro j hj cmd' hcmd'
        rcases Nat.eq_zero_or_pos j with rfl | hpos
        · rw [Nat.add_zero, Nat.mod_eq_of_lt hcurr, hentry] at hcmd'
          obtain rfl := Except.ok.inj hcmd'
          exact hcmd
        · obtain ⟨j, rfl⟩ : ∃ i, j = i + 1 := ⟨j - 1, by omega⟩
          have hshape := queue.advance_shape.1
          have hnext : (if curr + 1 = queue.sqDepth then 0 else curr + 1) < queue.advance.sqDepth := by
            rw [hshape, next_slot hcurr]
            exact Nat.mod_lt _ (Nat.zero_lt_of_lt hcurr)
          rw [← p.ns]
          refine ih (kq.advance p) hnext (by rw [hshape]; exact hrest) j (by omega) cmd' ?_
          rw [hshape, slot_shift hcurr, p.sqEntry_eq kq.adminQ]
          exact hcmd'

/-- Where the completions of a series stand, and what they carry. -/
theorem PostsInTurn.placed {n curr : Nat} {posted : List NvmeCompletion} (kq : QueueReady v queue)
    (hcurr : curr < queue.sqDepth) (h : PostsInTurn queue.sqDepth n curr v posted v') :
    posted.length = n ∧
    (∀ k (hk : k < posted.length), CompletionFor v ((curr + k) % queue.sqDepth)
      (queue.cursor.after queue.cqDepth k) posted[k]) ∧
    ∃ queue', v'.adminQ = some queue' ∧ queue'.cursor = queue.cursor.after queue.cqDepth posted.length := by
  have hpos : 0 < queue.cqDepth := Nat.zero_lt_of_lt kq.head
  induction n generalizing curr v queue posted with
  | zero =>
    cases h
    refine ⟨rfl, fun k hk => absurd hk (Nat.not_lt_zero k), queue, kq.adminQ, ?_⟩
    exact (Cursor.after_zero (c := queue.cursor) kq.head).symm
  | succ n ih =>
    cases h with
    | post h₁ hone hrest =>
      obtain ⟨queue₁, cmd, addr, hq, hentry, -, p⟩ := hone
      obtain rfl := Option.some.inj (kq.adminQ.symm.trans hq)
      obtain ⟨hsq, hcq, -⟩ := queue.advance_shape
      have hnext : (if curr + 1 = queue.sqDepth then 0 else curr + 1) < queue.advance.sqDepth := by
        rw [hsq, next_slot hcurr]
        exact Nat.mod_lt _ (Nat.zero_lt_of_lt hcurr)
      obtain ⟨hlen, hfor, queue', hq', hcur⟩ := ih (kq.advance p) hnext
        (by rw [hsq]; exact hrest) (hcq ▸ hpos)
      -- the cursor of the rest starts one position later
      have hcursor : ∀ m, queue.advance.cursor.after queue.advance.cqDepth m =
          queue.cursor.after queue.cqDepth (m + 1) := by
        intro m
        rw [hcq, queue.advance_cursor, Cursor.after_next hpos kq.head]
      refine ⟨by rw [List.length_cons, hlen], ?_, queue', hq', ?_⟩
      · intro j hj
        cases j with
        | zero =>
          rw [Nat.add_zero, Nat.mod_eq_of_lt hcurr, Cursor.after_zero (c := queue.cursor) kq.head]
          refine ⟨⟨cmd, hentry, p.commandId⟩, ?_, p.sqId, p.phase⟩
          have hd := kq.depth
          exact p.sqHead.trans (Nat.mod_eq_of_lt (by omega))
        | succ j =>
          have hj' := hfor j (by simpa using hj)
          rw [hsq, slot_shift hcurr, hcursor] at hj'
          obtain ⟨cmd', hcmd', hid⟩ := hj'.commandId
          exact ⟨⟨cmd', (p.sqEntry_eq kq.adminQ _) ▸ hcmd', hid⟩, hj'.sqHead, hj'.sqId, hj'.phase⟩
      · rw [hcur, hcursor, List.length_cons]

/-- An admin queue of two entries in each direction. -/
def adminQueue2 : AdminQueue := ⟨true, 2, 2, 0, some ⟨0, 1⟩, some ⟨1, 1⟩⟩

/-- A device whose host has put `cmd` into every slot of the admin queue. -/
def adminDev (queue : AdminQueue) (cmd : NvmeAdminCommand) : NvmevDev where
  adminQ := some queue
  sqes := fun _ => none
  cqes := fun _ => none
  dbs := fun _ => 0
  oldDbs := fun _ => 0
  nrSq := 0
  nrCq := 0
  ns := [⟨0, 2^30, none⟩]
  mdts := 0
  mem := ⟨fun _ _ => cmd, fun _ _ => ⟨0, 0, 0, 0, 0, 0⟩, fun _ _ => ⟨0, 0, 0, 0, 0, 0, 0, 0⟩,
    fun _ _ => ⟨0, 0, 0, 0, 0, 0⟩, fun _ => none⟩

def abortCommand : NvmeAdminCommand := ⟨0x08, 5, 0, 0, 0, 0⟩
def identifyCtrl : NvmeAdminCommand := ⟨0x06, 7, 0, 0x3000, 0x01, 0⟩

end NVMeVirt
