import NVMeVirt.ConvInit

/-!
# Runs of a namespace

`Reachable` holds of the states between commands: any commands in any order, with the
scheduled releases of write buffer space done in any order in between. A command that runs
into a fault, or whose GC loop does not end, has no next state.
-/

namespace NVMeVirt
set_option autoImplicit false
open Outcome Census

/-- The promises of the host: the LBA range is inside the advertised size, the transfer is
within `MDTS` pages of 4 KiB. -/
structure HostOk (cfg : SsdConfig) (ns : ConvNs) (req : NvmevRequest) : Prop where
  range : req.cmd.opcode = .read ∨ req.cmd.opcode = .write →
    req.cmd.slba + nrLba req.cmd ≤ ns.size / lbaSize
  mdts : req.cmd.opcode = .read ∨ req.cmd.opcode = .write →
    lbaToByte (nrLba req.cmd) ≤ 2^cfg.mdts * kb 4

inductive Reachable (clk : Nat → Nat) (cfg : ConvConfig) (mem : Nat → Leftover) (size : Nat)
    (host : ConvNs → NvmevRequest → Prop) (spp : SsdParams) : ConvNs → List InternalOp → Prop where
  | init {ns : ConvNs} (h : convInitNamespace cfg.toSsdConfig mem size = .ok (spp, ns)) :
      Reachable clk cfg mem size host spp ns []
  | command {ns : ConvNs} {ops : List InternalOp} {fuel : Nat} {req : NvmevRequest} {ret : NvmevResult}
      {o : ProcOutcome} (hr : Reachable clk cfg mem size host spp ns ops) (hreq : host ns req)
      (h : convProcNvmeIoCmd clk spp (convInitParams cfg.toSsdConfig) fuel ns req ret = .ok o) :
      Reachable clk cfg mem size host spp o.ns (ops ++ o.ops)
  | release {ns : ConvNs} {ops : List InternalOp} {op : InternalOp}
      (hr : Reachable clk cfg mem size host spp ns ops) (h : op ∈ ops) :
      Reachable clk cfg mem size host spp
        { ns with writeBuffer := bufferRelease ns.writeBuffer op.buffsToRelease } (ops.erase op)

variable {clk : Nat → Nat} {spp : SsdParams} {cpp : ConvParams} {M : Prop} {ns : ConvNs}
  {req : NvmevRequest} {ret : NvmevResult}

/-- What the `switch` has done: timing only, or a host write. -/
def Dispatched (spp : SsdParams) (M : Prop) (ns : ConvNs) (cmd : NvmeCommand) (ns₁ : ConvNs)
    (ops : List InternalOp) : Prop :=
  (cmd.opcode ≠ .write ∧ NsOk spp M ns₁ ∧ Idle ns ns₁ ∧ ops = []) ∨
    (cmd.opcode = .write ∧ Written spp M ns cmd ns₁ ops)

theorem convDispatch_sat (k : NsOk spp M ns) (g : Geometry spp) (req : NvmevRequest) (ret : NvmevResult) :
    Sat (convDispatch clk spp ns req ret)
      (fun r => ∀ ns₁ ret' ops, r = some (ns₁, ret', ops) → Dispatched spp M ns req.cmd ns₁ ops)
      (fun e => ¬ Rated spp ∨ req.cmd.opcode = .write ∧
        WriteExcuse spp M ns (pageCount spp req.cmd) e) := by
  unfold convDispatch
  split
  · rename_i hop
    refine (convWrite_sat k g req).mono ?_ (fun _ he => Or.inr ⟨hop, he⟩)
    intro r hr ns₁ ret' ops hp
    exact Or.inr ⟨hop, hr ns₁ ret' ops hp⟩
  · rename_i hop
    refine ((convRead_sat k req).mono (fun _ hp => hp) (fun _ he => Or.inl he)).bind ?_
    intro r hr
    cases r with
    | none => exact fun _ _ _ hp => nomatch hp
    | some p =>
      intro ns₁ ret' ops hp
      cases hp
      obtain ⟨k₁, hid⟩ := hr p rfl
      exact Or.inl ⟨by simp [hop], k₁, hid, rfl⟩
  · rename_i hop
    intro ns₁ ret' ops hp
    cases hp
    exact Or.inl ⟨by simp [hop], convFlush_ok k, convFlush_idle clk spp ns, rfl⟩
  · rename_i hop
    intro ns₁ ret' ops hp
    cases hp
    exact Or.inl ⟨by simp [hop], k, Idle.refl ns, rfl⟩
  · rename_i hop
    intro ns₁ ret' ops hp
    cases hp
    exact Or.inl ⟨by simp [hop], k, Idle.refl ns, rfl⟩

theorem convProcNvmeIoCmd_cases {fuel : Nat} {o : ProcOutcome}
    (h : convProcNvmeIoCmd clk spp cpp fuel ns req ret = .ok o) :
    (convDispatch clk spp ns req ret = .ok none ∧ o = ⟨false, ns, ret, []⟩) ∨
    (∃ ns₁ ret' ops f, convDispatch clk spp ns req ret = .ok (some (ns₁, ret', ops)) ∧
      gcWhileHigh clk spp cpp fuel (ns₁.load 0) = .ok f ∧ o = ⟨true, ns₁.store 0 f, ret', ops⟩) := by
  unfold convProcNvmeIoCmd at h
  obtain ⟨_, h⟩ := nvmevAssert_bind_ok.mp h
  obtain ⟨r, hd, h⟩ := bind_eq_ok.mp h
  cases r with
  | none =>
    cases h
    exact Or.inl ⟨hd, rfl⟩
  | some p =>
    obtain ⟨ns₁, ret', ops⟩ := p
    obtain ⟨f, hf, h⟩ := bind_eq_ok.mp h
    cases h
    exact Or.inr ⟨ns₁, ret', ops, f, hd, hf, rfl⟩

theorem Dispatched.nsOk {cmd : NvmeCommand} {ns₁ : ConvNs} {ops : List InternalOp}
    (h : Dispatched spp M ns cmd ns₁ ops) : NsOk spp M ns₁ := by
  rcases h with ⟨_, k, _, _⟩ | ⟨_, hw⟩
  · exact k
  · exact hw.ok

theorem Dispatched.nrParts {cmd : NvmeCommand} {ns₁ : ConvNs} {ops : List InternalOp}
    (h : Dispatched spp M ns cmd ns₁ ops) : ns₁.nrParts = ns.nrParts := by
  rcases h with ⟨_, _, hid, _⟩ | ⟨_, hw⟩
  · exact hid.shell.nrParts
  · exact hw.nrParts

theorem Dispatched.size {cmd : NvmeCommand} {ns₁ : ConvNs} {ops : List InternalOp}
    (h : Dispatched spp M ns cmd ns₁ ops) : ns₁.size = ns.size := by
  rcases h with ⟨_, _, hid, _⟩ | ⟨_, hw⟩
  · exact hid.shell.size
  · exact hw.size

theorem convProcNvmeIoCmd_keeps (k : NsOk spp M ns) (g : Geometry spp) {fuel : Nat} {o : ProcOutcome}
    (h : convProcNvmeIoCmd clk spp cpp fuel ns req ret = .ok o) :
    NsOk spp M o.ns ∧ o.ns.nrParts = ns.nrParts ∧ o.ns.size = ns.size := by
  rcases convProcNvmeIoCmd_cases h with ⟨_, rfl⟩ | ⟨ns₁, ret', ops, f, hd, hf, rfl⟩
  · exact ⟨k, rfl, rfl⟩
  · have hdis := (convDispatch_sat k g req ret).of_ok hd ns₁ ret' ops rfl
    have k₁ := hdis.nsOk
    obtain ⟨hs, hm, _, _⟩ := (gcWhileHigh_sound g fuel (k₁.sound 0 k₁.parts_pos)
      (fun hM => k₁.map hM 0 k₁.parts_pos)).of_ok hf
    exact ⟨k₁.store hs hm, hdis.nrParts, hdis.size⟩

theorem gcWhileHigh_no_victim {s s' : ConvFtl} (hq : s.lm.victimLinePq.size = 1) {fuel : Nat}
    (h : gcWhileHigh clk spp cpp fuel s = .ok s') : s' = s := by
  induction fuel with
  | zero =>
    unfold gcWhileHigh at h
    split at h
    · cases h
    · exact (Except.ok.inj h).symm
  | succ fuel ih =>
    unfold gcWhileHigh at h
    split at h
    · rw [doGc_empty hq, ok_bind] at h
      exact ih h
    · exact (Except.ok.inj h).symm

theorem gcWhileHigh_exit {s s' : ConvFtl} {fuel : Nat}
    (h : gcWhileHigh clk spp cpp fuel s = .ok s') : cpp.gcThresLinesHigh < s'.lm.freeLineCnt := by
  have hexit : ∀ {t : ConvFtl}, ¬ shouldGcHigh cpp t = true → cpp.gcThresLinesHigh < t.lm.freeLineCnt := by
    intro t ht
    simpa [shouldGcHigh] using ht
  induction fuel generalizing s with
  | zero =>
    unfold gcWhileHigh at h
    split at h
    · cases h
    · rename_i hx
      cases h
      exact hexit hx
  | succ fuel ih =>
    unfold gcWhileHigh at h
    split at h
    · obtain ⟨⟨t, _⟩, _, h⟩ := bind_eq_ok.mp h
      exact ih h
    · rename_i hx
      cases h
      exact hexit hx

theorem gcWhileHigh_calm {s : ConvFtl} (h : cpp.gcThresLinesHigh < s.lm.freeLineCnt) (fuel : Nat) :
    gcWhileHigh clk spp cpp fuel s = .ok s := by
  have hnot : ¬ shouldGcHigh cpp s = true := by simpa [shouldGcHigh] using h
  cases fuel with
  | zero => rw [gcWhileHigh, if_neg hnot]
  | succ fuel => rw [gcWhileHigh, if_neg hnot]

theorem convDispatch_no_pages (clk : Nat → Nat) (hz : spp.ttPgs = 0) (hn : 0 < ns.nrParts) (req : NvmevRequest)
    (ret : NvmevResult) : ∃ r, convDispatch clk spp ns req ret = .ok r ∧
      ∀ ns₁ ret' ops, r = some (ns₁, ret', ops) → Idle ns ns₁ ∧ ops = [] := by
  have hne : ¬ ns.nrParts = 0 := by omega
  have hfull : ∀ m, spp.ttPgs ≤ m := fun m => hz ▸ Nat.zero_le m
  unfold convDispatch
  split
  · refine ⟨none, ?_, fun _ _ _ hp => nomatch hp⟩
    unfold convWrite
    dsimp only
    rw [if_neg hne, if_pos (hfull _)]
    rfl
  · refine ⟨none, ?_, fun _ _ _ hp => nomatch hp⟩
    have hread : convRead clk spp ns req = .ok none := by
      unfold convRead
      dsimp only
      rw [if_neg hne, if_pos (hfull _)]
      rfl
    rw [hread]
    rfl
  · refine ⟨_, rfl, ?_⟩
    intro ns₁ ret' ops hp
    cases hp
    exact ⟨convFlush_idle clk spp ns, rfl⟩
  · refine ⟨_, rfl, ?_⟩
    intro ns₁ ret' ops hp
    cases hp
    exact ⟨Idle.refl ns, rfl⟩
  · refine ⟨_, rfl, ?_⟩
    intro ns₁ ret' ops hp
    cases hp
    exact ⟨Idle.refl ns, rfl⟩

theorem convProcNvmeIoCmd_no_pages (hz : spp.ttPgs = 0) (hn : 0 < ns.nrParts)
    (hq : (ns.load 0).lm.victimLinePq.size = 1) {fuel : Nat} {o : ProcOutcome}
    (h : convProcNvmeIoCmd clk spp cpp fuel ns req ret = .ok o) : Idle ns o.ns ∧ o.ops = [] := by
  rcases convProcNvmeIoCmd_cases h with ⟨_, rfl⟩ | ⟨ns₁, ret', ops, f, hd, hf, rfl⟩
  · exact ⟨Idle.refl ns, rfl⟩
  · obtain ⟨r, hr, hidle⟩ := convDispatch_no_pages clk hz hn req ret
    rw [hd] at hr
    obtain ⟨hid, hops⟩ := hidle ns₁ ret' ops (Except.ok.inj hr).symm
    have hq₁ : (ns₁.load 0).lm.victimLinePq.size = 1 := by
      obtain ⟨ssd, he, _⟩ := hid.slept 0
      rw [he]
      exact hq
    rw [gcWhileHigh_no_victim hq₁ hf]
    exact ⟨hid.trans (idle_store (show (ns₁.load 0).ssd.blk = _ from rfl)), hops⟩

section Run

variable {cfg : ConvConfig} {mem : Nat → Leftover} {size : Nat} {host : ConvNs → NvmevRequest → Prop}
  {ops : List InternalOp}

theorem Reachable.fresh (hr : Reachable clk cfg mem size host spp ns ops) :
    ∃ ns₀, Fresh cfg mem size spp ns₀ := by
  induction hr with
  | init h => exact ⟨_, convInitNamespace_ok h⟩
  | command _ _ _ ih => exact ih
  | release _ _ ih => exact ih

theorem Reachable.geometry (hr : Reachable clk cfg mem size host spp ns ops) (hpos : 0 < spp.ttPgs) :
    Geometry spp := by
  obtain ⟨ns₀, hf⟩ := hr.fresh
  exact hf.derived.geometry hf.lines hpos

theorem Reachable.nsOk (hr : Reachable clk cfg mem size host spp ns ops) (hpos : 0 < spp.ttPgs) :
    NsOk spp (AllBlank spp mem cfg.ssdPartitions) ns ∧ ns.nrParts = cfg.ssdPartitions ∧
      ns.size = convNsSize (convInitParams cfg.toSsdConfig) size := by
  have g := hr.geometry hpos
  induction hr with
  | init h =>
    have hf := convInitNamespace_ok h
    exact ⟨hf.nrParts ▸ hf.nsOk hpos, hf.nrParts, hf.nsSize⟩
  | command hr hreq h ih =>
    obtain ⟨k, hn, hs⟩ := ih
    obtain ⟨k', hn', hs'⟩ := convProcNvmeIoCmd_keeps k g h
    exact ⟨k', hn'.trans hn, hs'.trans hs⟩
  | release hr h ih =>
    obtain ⟨k, hn, hs⟩ := ih
    exact ⟨⟨k.csi, k.parts_pos, k.sound, k.map⟩, hn, hs⟩

theorem Reachable.frozen (hr : Reachable clk cfg mem size host spp ns ops) (hz : spp.ttPgs = 0) :
    ns.nrParts = cfg.ssdPartitions ∧ 0 < ns.nrParts ∧ ns.csi = .nvm ∧
      ∀ i < ns.nrParts, Slept (freshFtl spp (mem i) (ssdInit spp)) (ns.load i) := by
  induction hr with
  | init h =>
    have hf := convInitNamespace_ok h
    refine ⟨hf.nrParts, hf.parts_pos, hf.csi, ?_⟩
    intro i hi
    rw [hf.load i hi]
    exact Slept.refl _
  | command hr hreq h ih =>
    obtain ⟨hn, hp, hcsi, hall⟩ := ih
    obtain ⟨ssd, he, _⟩ := hall 0 hp
    obtain ⟨hid, _⟩ := convProcNvmeIoCmd_no_pages hz hp (by rw [he]; rfl) h
    have hn' := hid.shell.nrParts
    refine ⟨hn'.trans hn, by omega, hid.shell.csi.trans hcsi, ?_⟩
    intro i hi
    exact (hall i (by omega)).trans (hid.slept i)
  | release hr h ih => exact ih

end Run

end NVMeVirt
