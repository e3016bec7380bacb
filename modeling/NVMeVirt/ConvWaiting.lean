import NVMeVirt.ConvBuffer
import NVMeVirt.ConvProvision

/-!
# Refused commands

`conv_read` and `conv_write` return false for a range outside the pages of the FTL and for
a shortage of buffer space, and the dispatcher tries again in both cases. The state in which
all scheduled releases have been done decides whether the command waits or blocks its queue.
-/

namespace NVMeVirt
set_option autoImplicit false
open Outcome Census

variable {clk : Nat → Nat} {spp : SsdParams} {cpp : ConvParams} {M : Prop} {ns : ConvNs}
  {req : NvmevRequest} {ret : NvmevResult} {ops : List InternalOp}

def ReadOrWrite (cmd : NvmeCommand) : Prop := cmd.opcode = .read ∨ cmd.opcode = .write

def Refused (spp : SsdParams) (ns : ConvNs) (cmd : NvmeCommand) : Prop :=
  spp.ttPgs ≤ endLpn spp cmd / ns.nrParts ∨
  cmd.opcode = .write ∧ ns.writeBuffer.remaining < lbaToByte (nrLba cmd)

theorem lbaToByte_pos (cmd : NvmeCommand) : 0 < lbaToByte (nrLba cmd) :=
  Nat.mul_pos (Nat.succ_pos _) (Nat.two_pow_pos lbaBits)

theorem convWrite_none_iff (clk : Nat → Nat) (hn : 0 < ns.nrParts) (hop : req.cmd.opcode = .write) :
    convWrite clk spp ns req = .ok none ↔ Refused spp ns req.cmd := by
  have hpos := lbaToByte_pos req.cmd
  unfold convWrite Refused
  dsimp only
  rw [if_neg (Nat.ne_of_gt hn)]
  by_cases hrange : spp.ttPgs ≤ endLpn spp req.cmd / ns.nrParts
  · rw [if_pos hrange]
    exact iff_of_true rfl (.inl hrange)
  rw [if_neg hrange]
  by_cases hshort : ns.writeBuffer.remaining < lbaToByte (nrLba req.cmd)
  · have halloc : (bufferAllocate ns.writeBuffer (lbaToByte (nrLba req.cmd))).2 = 0 := if_pos hshort
    rw [halloc, if_pos hpos]
    exact iff_of_true rfl (.inr ⟨hop, hshort⟩)
  · have halloc : (bufferAllocate ns.writeBuffer (lbaToByte (nrLba req.cmd))).2 =
      lbaToByte (nrLba req.cmd) := if_neg hshort
    rw [halloc, if_neg (Nat.lt_irrefl _)]
    refine iff_of_false (fun h => ?_) (fun h => ?_)
    · obtain ⟨_, _, h⟩ := bind_eq_ok.mp h
      obtain ⟨_, _, h⟩ := bind_eq_ok.mp h
      cases h
    · rcases h with h | h
      · exact hrange h
      · exact hshort h.2

theorem convRead_none_iff (clk : Nat → Nat) (hn : 0 < ns.nrParts) (hop : req.cmd.opcode = .read) :
    convRead clk spp ns req = .ok none ↔ Refused spp ns req.cmd := by
  unfold convRead Refused
  dsimp only
  rw [if_neg (Nat.ne_of_gt hn)]
  by_cases hrange : spp.ttPgs ≤ endLpn spp req.cmd / ns.nrParts
  · rw [if_pos hrange]
    exact iff_of_true rfl (.inl hrange)
  · rw [if_neg hrange]
    refine iff_of_false (fun h => ?_) (fun h => ?_)
    · obtain ⟨_, _, h⟩ := bind_eq_ok.mp h
      cases h
    · rcases h with h | h
      · exact hrange h
      · rw [hop] at h
        cases h.1

theorem convDispatch_none_iff (clk : Nat → Nat) (hn : 0 < ns.nrParts) (hop : ReadOrWrite req.cmd) :
    convDispatch clk spp ns req ret = .ok none ↔ Refused spp ns req.cmd := by
  unfold convDispatch
  rcases hop with hop | hop
  · rw [hop, ← convRead_none_iff clk hn hop]
    constructor
    · intro h
      obtain ⟨r, hr, h⟩ := bind_eq_ok.mp h
      cases r with
      | none => exact hr
      | some p => cases h
    · intro h
      change (convRead clk spp ns req >>= _) = _
      rw [h]
      rfl
  · rw [hop]
    exact convWrite_none_iff clk hn hop

/-- The code returns false for the refused commands, in every state and with any time for the GC loop. -/
theorem returns_false_iff (clk : Nat → Nat) (cpp : ConvParams) (fuel : Nat) (ret : NvmevResult)
    (hcsi : ns.csi = .nvm) (hn : 0 < ns.nrParts) (hop : ReadOrWrite req.cmd) :
    (∃ o, convProcNvmeIoCmd clk spp cpp fuel ns req ret = .ok o ∧ o.accepted = false) ↔
      Refused spp ns req.cmd := by
  constructor
  · rintro ⟨o, h, ha⟩
    rcases convProcNvmeIoCmd_cases h with ⟨hd, _⟩ | ⟨ns₁, ret', ops, f, hd, hf, rfl⟩
    · exact (convDispatch_none_iff clk hn hop).mp hd
    · cases ha
  · intro h
    refine ⟨⟨false, ns, ret, []⟩, ?_, rfl⟩
    unfold convProcNvmeIoCmd
    rw [nvmevAssert_true hcsi, ok_bind, (convDispatch_none_iff clk hn hop).mpr h]
    rfl

def releaseAll (ns : ConvNs) (ops : List InternalOp) : ConvNs :=
  ops.foldl (fun ns op =>
    { ns with writeBuffer := bufferRelease ns.writeBuffer op.buffsToRelease }) ns

theorem releaseAll_cons (op : InternalOp) : releaseAll ns (op :: ops) =
    releaseAll { ns with writeBuffer := bufferRelease ns.writeBuffer op.buffsToRelease } ops := rfl

theorem releaseAll_same (ns : ConvNs) (ops : List InternalOp) : (releaseAll ns ops).csi = ns.csi ∧
    (releaseAll ns ops).nrParts = ns.nrParts ∧ ∀ i, (releaseAll ns ops).load i = ns.load i := by
  induction ops generalizing ns with
  | nil => exact ⟨rfl, rfl, fun _ => rfl⟩
  | cons op ops ih =>
    rw [releaseAll_cons]
    exact ih _

theorem releaseAll_remaining (hlt : ns.writeBuffer.remaining < 2^64) (ops : List InternalOp) :
    (releaseAll ns ops).writeBuffer.remaining = u64 (ns.writeBuffer.remaining + bytesOf ops) := by
  induction ops generalizing ns with
  | nil => exact (u64_eq hlt).symm
  | cons op ops ih =>
    rw [releaseAll_cons, ih (Nat.mod_lt _ (by decide))]
    change u64 (u64 (ns.writeBuffer.remaining + op.buffsToRelease) + bytesOf ops) =
      u64 (ns.writeBuffer.remaining + (op.buffsToRelease + bytesOf ops))
    unfold u64
    rw [Nat.mod_add_mod, Nat.add_assoc]

section Run

variable {cfg : ConvConfig} {mem : Nat → Leftover} {size : Nat} {host : ConvNs → NvmevRequest → Prop}

theorem Reachable.releaseAll (hr : Reachable clk cfg mem size host spp ns ops) :
    Reachable clk cfg mem size host spp (releaseAll ns ops) [] := by
  induction ops generalizing ns with
  | nil => exact hr
  | cons op ops ih =>
    have h := hr.release List.mem_cons_self
    rw [List.erase_cons_head] at h
    exact ih h

theorem Reachable.parts (hr : Reachable clk cfg mem size host spp ns ops) :
    ns.csi = .nvm ∧ 0 < ns.nrParts := by
  rcases Nat.eq_zero_or_pos spp.ttPgs with hz | hpos
  · obtain ⟨_, hp, hcsi, _⟩ := hr.frozen hz
    exact ⟨hcsi, hp⟩
  · have k := (hr.nsOk hpos).1
    exact ⟨k.csi, k.parts_pos⟩

theorem convProcNvmeIoCmd_remaining_le {fuel : Nat} {o : ProcOutcome}
    (hr : Reachable clk cfg mem size host spp ns ops)
    (h : convProcNvmeIoCmd clk spp cpp fuel ns req ret = .ok o) :
    o.ns.writeBuffer.remaining ≤ ns.writeBuffer.remaining := by
  rcases Nat.eq_zero_or_pos spp.ttPgs with hz | hpos
  · obtain ⟨_, hp, _, hall⟩ := hr.frozen hz
    obtain ⟨ssd, he, _⟩ := hall 0 hp
    obtain ⟨hid, _⟩ := convProcNvmeIoCmd_no_pages hz hp (by rw [he]; rfl) h
    rw [hid.shell.writeBuffer]
  · have k := (hr.nsOk hpos).1
    by_cases ha : o.accepted = true
    · obtain ⟨ns₁, hdis, hbuf, _⟩ := convProcNvmeIoCmd_accepted k (hr.geometry hpos) h ha
      rw [hbuf]
      rcases hdis with ⟨_, _, hid, _⟩ | ⟨_, hw⟩
      · rw [hid.shell.writeBuffer]
      · rw [hw.writeBuffer]
        exact Nat.sub_le _ _
    · rcases convProcNvmeIoCmd_cases h with ⟨_, rfl⟩ | ⟨ns₁, ret', ops', f, _, _, rfl⟩
      · exact Nat.le_refl _
      · exact absurd rfl ha

/-- `remaining` is a 64-bit value. -/
theorem Reachable.remaining_lt (hr : Reachable clk cfg mem size host spp ns ops) :
    ns.writeBuffer.remaining < 2^64 := by
  induction hr with
  | init h =>
    rw [(convInitNamespace_ok h).writeBuffer]
    exact Nat.mod_lt _ (by decide)
  | command hr hreq h ih => exact Nat.lt_of_le_of_lt (convProcNvmeIoCmd_remaining_le hr h) ih
  | release hr h ih => exact Nat.mod_lt _ (by decide)

end Run

/-- The lines are enough for a write and for the GC loop after it. -/
structure LinesSuffice (spp : SsdParams) (cpp : ConvParams) (ns : ConvNs) (cmd : NvmeCommand) :
    Prop where
  rated : Rated spp
  fits : Fits spp
  pages : ∀ i < ns.nrParts, pageCount spp cmd < budget spp (ns.load i) .user
  lines : (wpIndex spp (ns.load 0).wp + pagesWritten spp ns cmd 0) / spp.pgsPerLine <
    (ns.load 0).lm.freeLineCnt
  room : mappedPages spp (ns.load 0) + pagesWritten spp ns cmd 0 +
    (cpp.gcThresLinesHigh + 2) * spp.pgsPerLine < spp.blksPerPl * spp.pgsPerLine

/-- A write maps at most as many new pages of a partition as it writes there. -/
theorem Written.mappedPages_le {cmd : NvmeCommand} {ns₁ : ConvNs}
    (hw : Written spp M ns cmd ns₁ ops) (i : Nat) :
    mappedPages spp (ns₁.load i) ≤ mappedPages spp (ns.load i) +
      partPages ns.nrParts (startLpn spp cmd) (pageCount spp cmd) i := by
  have hcover : (Finset.range spp.ttPgs).filter (fun j => (ns₁.load i).maptbl j ≠ unmappedPpa) ⊆
      (Finset.range spp.ttPgs).filter (fun j => (ns.load i).maptbl j ≠ unmappedPpa) ∪
      ((Finset.range (pageCount spp cmd)).filter
        (fun k => ((startLpn spp cmd + k) % ns.nrParts == i) = true)).image
          (fun k => (startLpn spp cmd + k) / ns.nrParts) := by
    intro j hj
    rw [Finset.mem_filter, Finset.mem_range] at hj
    rw [Finset.mem_union, Finset.mem_filter, Finset.mem_range, Finset.mem_image]
    by_cases hin : ∃ lpn, startLpn spp cmd ≤ lpn ∧ lpn ≤ endLpn spp cmd ∧ lpn % ns.nrParts = i ∧
        lpn / ns.nrParts = j
    · obtain ⟨lpn, hle, hle', hpart, hpage⟩ := hin
      have hk : startLpn spp cmd + (lpn - startLpn spp cmd) = lpn := by omega
      refine .inr ⟨lpn - startLpn spp cmd, ?_, by rw [hk]; exact hpage⟩
      rw [Finset.mem_filter, Finset.mem_range, hk]
      refine ⟨?_, beq_iff_eq.mpr hpart⟩
      unfold pageCount
      omega
    · refine .inl ⟨hj.1, ?_⟩
      rw [← hw.maptbl i j]
      · exact hj.2
      · exact fun lpn hle hle' h => hin ⟨lpn, hle, hle', h⟩
  calc mappedPages spp (ns₁.load i) ≤ _ := Finset.card_le_card hcover
    _ ≤ _ := Finset.card_union_le _ _
    _ ≤ _ := Nat.add_le_add_left Finset.card_image_le _

theorem LinesSuffice.returns (clk : Nat → Nat) (ret : NvmevResult) (k : NsOk spp M ns) (g : Geometry spp)
    (hM : M) (hsup : LinesSuffice spp cpp ns req.cmd) (hop : req.cmd.opcode = .write) :
    ∃ fuel o, convProcNvmeIoCmd clk spp cpp fuel ns req ret = .ok o := by
  refine ⟨spp.ttPgs + 1, ?_⟩
  refine command_returns clk ret k g hM hsup.fits hsup.rated (fun _ => hsup.pages) hsup.lines hsup.room
    (fun hdis => ?_) (Nat.lt_succ_self _)
  rcases hdis with ⟨hne, _⟩ | ⟨_, hw⟩
  · exact absurd hop hne
  · unfold pagesWritten
    rw [if_pos hop]
    exact hw.mappedPages_le 0

section Steady

variable (clk : Nat → Nat) (cfg : ConvConfig) (mem : Nat → Leftover) (size : Nat) (spp : SsdParams)

/-- Commands of a host that keeps its promises; the bytes that are free or scheduled to be released
stay a 64-bit number. -/
inductive SteadyRun : ConvNs → List InternalOp → Prop where
  | init {ns : ConvNs} (h : convInitNamespace cfg.toSsdConfig mem size = .ok (spp, ns)) : SteadyRun ns []
  | command {ns : ConvNs} {ops : List InternalOp} {fuel : Nat} {req : NvmevRequest} {ret : NvmevResult}
      {o : ProcOutcome} (hr : SteadyRun ns ops) (hreq : HostOk cfg.toSsdConfig ns req)
      (h : convProcNvmeIoCmd clk spp (convInitParams cfg.toSsdConfig) fuel ns req ret = .ok o)
      (hsteady : o.ns.writeBuffer.remaining + bytesOf (ops ++ o.ops) < 2^64) :
      SteadyRun o.ns (ops ++ o.ops)
  | release {ns : ConvNs} {ops : List InternalOp} {op : InternalOp} (hr : SteadyRun ns ops)
      (h : op ∈ ops) :
      SteadyRun { ns with writeBuffer := bufferRelease ns.writeBuffer op.buffsToRelease } (ops.erase op)

end Steady

section Pro

variable {cfg : ConvConfig} {mem : Nat → Leftover} {size : Nat}

theorem SteadyRun.reachable (hr : SteadyRun clk cfg mem size spp ns ops) :
    Reachable clk cfg mem size (HostOk cfg.toSsdConfig) spp ns ops := by
  induction hr with
  | init h => exact .init h
  | command _ hreq h _ ih => exact .command ih hreq h
  | release _ h ih => exact .release ih h

theorem HostOk.bytes_le (h : HostOk cfg.toSsdConfig ns req) (hop : req.cmd.opcode = .write)
    (hsec : spp.secsPerPg = 8) (hsize : ns.size < 2^64) :
    lbaToByte (nrLba req.cmd) ≤ pageCount spp req.cmd * 4096 := by
  have hr := h.range (.inr hop)
  have hl : lbaSize = 512 := by decide
  unfold pageCount endLpn startLpn u64 lbaToByte
  unfold nrLba at *
  rw [hl] at hr ⊢
  rw [hsec]
  omega

/-- What is free, scheduled, or in an open one-shot page is at least the whole buffer. -/
structure BufferCovered (spp : SsdParams) (ns : ConvNs) (ops : List InternalOp) : Prop where
  steady : ns.writeBuffer.remaining + bytesOf ops < 2^64
  covers : ns.writeBuffer.size ≤ ns.writeBuffer.remaining + bytesOf ops + openBytes spp ns

/-- One step: a release only moves bytes. -/
theorem BufferCovered.release {op : InternalOp} (hc : BufferCovered spp ns ops) (h : op ∈ ops) :
    BufferCovered spp { ns with writeBuffer := bufferRelease ns.writeBuffer op.buffsToRelease }
      (ops.erase op) := by
  obtain ⟨hsteady, hcovers⟩ := hc
  have hsum := bytesOf_erase h
  have hrem : u64 (ns.writeBuffer.remaining + op.buffsToRelease) =
    ns.writeBuffer.remaining + op.buffsToRelease := u64_eq (by omega)
  refine ⟨?_, ?_⟩
  · change u64 (ns.writeBuffer.remaining + op.buffsToRelease) + bytesOf (ops.erase op) < 2^64
    rw [hrem]
    omega
  · change ns.writeBuffer.size ≤ u64 (ns.writeBuffer.remaining + op.buffsToRelease) +
      bytesOf (ops.erase op) + openBytes spp ns
    rw [hrem]
    omega

/-- One step: a write takes no more bytes than the pages that it writes. -/
theorem BufferCovered.command {fuel : Nat} {o : ProcOutcome} (hc : BufferCovered spp ns ops) (k : NsOk spp M ns)
    (g : Geometry spp) (hsec : spp.secsPerPg = 8) (hpgsz : spp.pgsz = 4096) (hsize : ns.size < 2^64)
    (hreq : HostOk cfg.toSsdConfig ns req) (h : convProcNvmeIoCmd clk spp cpp fuel ns req ret = .ok o)
    (hsteady : o.ns.writeBuffer.remaining + bytesOf (ops ++ o.ops) < 2^64) :
    BufferCovered spp o.ns (ops ++ o.ops) ∧ o.ns.writeBuffer.size = ns.writeBuffer.size := by
  by_cases ha : o.accepted = true
  · obtain ⟨ns₁, hdis, hbuf, hn, hwp⟩ := convProcNvmeIoCmd_accepted k g h ha
    have hopen : openBytes spp o.ns = openBytes spp ns₁ := openBytes_congr hn hwp
    have hold := hc.covers
    rcases hdis with ⟨_, _, hid, hops⟩ | ⟨hop, hw⟩
    · rw [hid.shell.writeBuffer] at hbuf
      refine ⟨⟨hsteady, ?_⟩, by rw [hbuf]⟩
      rw [hops, List.append_nil, hbuf, hopen, hid.openBytes]
      exact hold
    · rw [hw.writeBuffer] at hbuf
      refine ⟨⟨hsteady, ?_⟩, by rw [hbuf]⟩
      have hroom := hw.room
      have hbytes := hw.bytes
      have hle := hreq.bytes_le hop hsec hsize
      rw [hpgsz] at hbytes
      rw [bytesOf_append, hbuf, hopen]
      dsimp only
      omega
  · rcases convProcNvmeIoCmd_cases h with ⟨_, rfl⟩ | ⟨ns₁, ret', ops', f, _, _, rfl⟩
    · rw [List.append_nil] at hsteady ⊢
      exact ⟨⟨hsteady, hc.covers⟩, rfl⟩
    · exact absurd rfl ha

theorem SteadyRun.bufferCovered (hr : SteadyRun clk cfg mem size spp ns ops) (hpos : 0 < spp.ttPgs) :
    BufferCovered spp ns ops ∧ ns.writeBuffer.size = u64 cfg.globalWbSize := by
  have g := hr.reachable.geometry hpos
  obtain ⟨ns₀, hfresh⟩ := hr.reachable.fresh
  induction hr with
  | init h =>
    have hbuf := (convInitNamespace_ok h).writeBuffer
    rw [hbuf]
    refine ⟨⟨?_, ?_⟩, rfl⟩
    · rw [hbuf]
      exact Nat.mod_lt _ (by decide)
    · rw [hbuf]
      exact Nat.le_add_right _ _
  | command hr hreq h hsteady ih =>
    obtain ⟨hc, hsz⟩ := ih
    obtain ⟨k, _, hns⟩ := hr.reachable.nsOk hpos
    have hlt : convNsSize (convInitParams cfg.toSsdConfig) size < 2^64 :=
      Nat.lt_of_le_of_lt (Nat.div_le_self _ _) (Nat.mod_lt _ (by decide))
    rw [← hns] at hlt
    obtain ⟨hc', hsz'⟩ := hc.command k g hfresh.derived.secsPerPg hfresh.derived.pgsz hlt hreq h hsteady
    exact ⟨hc', hsz'.trans hsz⟩
  | release hr h ih => exact ⟨ih.1.release h, ih.2⟩

theorem pro_linesSuffice (hsize : size < 2^64) (hpos : 0 < spp.ttPgs)
    (hr : Reachable clk convSamsung970Pro mem size (HostOk samsung970Pro) spp ns ops)
    (hblank : AllBlank spp mem 1) (hfit : spp.pgsPerBlk ≤ 2^pageBits) (hop : req.cmd.opcode = .write)
    (hmdts : lbaToByte (nrLba req.cmd) ≤ 2^6 * kb 4) : LinesSuffice spp proParams ns req.cmd := by
  have g := hr.geometry hpos
  obtain ⟨ns₀, hfresh⟩ := hr.fresh
  have d : Derived convSamsung970Pro size 1 spp := hfresh.derived
  obtain ⟨hnchs, hluns, hb, hline, htt, hblk⟩ := pro_geometry d hfresh.lines
  obtain ⟨k, hn, hns⟩ := hr.nsOk hpos
  have hsp := pro_spacious hr hpos hblank
  have hfree : 8 < (ns.load 0).lm.freeLineCnt := hsp.free
  have hcount := pageCount_le_of_mdts d.secsPerPg hmdts
  obtain ⟨hpages, hfew, hlines⟩ := k.write_fits g (show 65 < spp.pgsPerLine by omega)
    (show 2 ≤ _ by omega) (fun _ => hcount)
  refine ⟨pro_rated d, ⟨by rw [hnchs]; decide, by rw [hluns]; decide, hfit⟩, fun i hi => ?_, hlines, ?_⟩
  · obtain rfl : i = 0 := by
      have : ns.nrParts = 1 := hn
      omega
    exact hpages hop
  · -- the advertised size leaves hundreds of lines
    have hcap := pro_capacity d hfresh.lines hpos hsize
    have hmapped := hsp.mapped.card
    have hthres : proParams.gcThresLinesHigh = 8 := rfl
    have hpcent : (convInitParams convSamsung970Pro.toSsdConfig).pbaPcent = 107 := by decide
    unfold visiblePages at hmapped
    rw [hns, convNsSize, hpcent, u64] at hmapped
    have hle := Nat.mod_le (size * 100) (2^64)
    generalize size * 100 % 2^64 = bytes at *
    rw [hthres, hb]
    omega

end Pro

/-- What is refused now is accepted once all scheduled releases have been done. -/
def Waits (clk : Nat → Nat) (spp : SsdParams) (cpp : ConvParams) (ns : ConvNs) (ops : List InternalOp)
    (req : NvmevRequest) (ret : NvmevResult) : Prop :=
  ∀ fuel o, convProcNvmeIoCmd clk spp cpp fuel ns req ret = .ok o → o.accepted = false →
    ∃ fuel' o', convProcNvmeIoCmd clk spp cpp fuel' (releaseAll ns ops) req ret = .ok o' ∧
      o'.accepted = true

/-- The code returns false now and once nothing is left to release. -/
def Blocks (clk : Nat → Nat) (spp : SsdParams) (cpp : ConvParams) (ns : ConvNs) (ops : List InternalOp)
    (req : NvmevRequest) (ret : NvmevResult) : Prop :=
  ∀ fuel, (∃ o, convProcNvmeIoCmd clk spp cpp fuel ns req ret = .ok o ∧ o.accepted = false) ∧
    ∃ o, convProcNvmeIoCmd clk spp cpp fuel (releaseAll ns ops) req ret = .ok o ∧ o.accepted = false

/-- The pages are pages of the FTL, and a write fits into the buffer space that is free or scheduled
to be released. -/
structure Servable (spp : SsdParams) (ns : ConvNs) (ops : List InternalOp) (cmd : NvmeCommand) :
    Prop where
  range : endLpn spp cmd / ns.nrParts < spp.ttPgs
  space : cmd.opcode = .write → lbaToByte (nrLba cmd) ≤ ns.writeBuffer.remaining ∨
    lbaToByte (nrLba cmd) ≤ u64 (ns.writeBuffer.remaining + bytesOf ops)

theorem Blocks.not_waits (h : Blocks clk spp cpp ns ops req ret) :
    ¬ Waits clk spp cpp ns ops req ret := by
  intro hwaits
  obtain ⟨⟨o, ho, ha⟩, _⟩ := h 0
  obtain ⟨fuel, o', ho', ha'⟩ := hwaits 0 o ho ha
  obtain ⟨o'', ho'', ha''⟩ := (h fuel).2
  rw [ho'] at ho''
  cases ho''
  rw [ha'] at ha''
  cases ha''

theorem refused_releaseAll (hlt : ns.writeBuffer.remaining < 2^64) (cmd : NvmeCommand) :
    Refused spp (releaseAll ns ops) cmd ↔ spp.ttPgs ≤ endLpn spp cmd / ns.nrParts ∨
      cmd.opcode = .write ∧ u64 (ns.writeBuffer.remaining + bytesOf ops) < lbaToByte (nrLba cmd) := by
  unfold Refused
  rw [(releaseAll_same ns ops).2.1, releaseAll_remaining hlt]

theorem servable_iff (hlt : ns.writeBuffer.remaining < 2^64) (cmd : NvmeCommand) :
    Servable spp ns ops cmd ↔ ¬ (Refused spp ns cmd ∧ Refused spp (releaseAll ns ops) cmd) := by
  rw [refused_releaseAll hlt]
  constructor
  · rintro ⟨hrange, hspace⟩ ⟨h | h, h' | h'⟩
    · omega
    · omega
    · omega
    · have := hspace h.1
      omega
  · intro h
    unfold Refused at h
    refine ⟨?_, fun hop => ?_⟩
    · by_contra hge
      exact h ⟨.inl (by omega), .inl (by omega)⟩
    · by_contra hno
      exact h ⟨.inr ⟨hop, by omega⟩, .inr ⟨hop, by omega⟩⟩

section Run

variable {cfg : ConvConfig} {mem : Nat → Leftover} {size : Nat} {host : ConvNs → NvmevRequest → Prop}

theorem Reachable.blocks_iff (cpp : ConvParams) (ret : NvmevResult)
    (hr : Reachable clk cfg mem size host spp ns ops) (hop : ReadOrWrite req.cmd) :
    Blocks clk spp cpp ns ops req ret ↔
      Refused spp ns req.cmd ∧ Refused spp (NVMeVirt.releaseAll ns ops) req.cmd := by
  obtain ⟨hcsi, hn⟩ := hr.parts
  obtain ⟨hcsi', hn'⟩ := hr.releaseAll.parts
  constructor
  · intro h
    exact ⟨(returns_false_iff clk cpp 0 ret hcsi hn hop).mp (h 0).1,
      (returns_false_iff clk cpp 0 ret hcsi' hn' hop).mp (h 0).2⟩
  · intro h fuel
    exact ⟨(returns_false_iff clk cpp fuel ret hcsi hn hop).mpr h.1,
      (returns_false_iff clk cpp fuel ret hcsi' hn' hop).mpr h.2⟩

theorem Reachable.waits_of_servable (hr : Reachable clk cfg mem size host spp ns ops)
    (hop : ReadOrWrite req.cmd) (hwrite : req.cmd.opcode = .write →
      LinesSuffice spp cpp ns req.cmd ∧ AllBlank spp mem cfg.ssdPartitions)
    (hs : Servable spp ns ops req.cmd) : Waits clk spp cpp ns ops req ret := by
  intro fuel o ho ha
  obtain ⟨hcsi, hn⟩ := hr.parts
  obtain ⟨hcsi', hn'⟩ := hr.releaseAll.parts
  obtain ⟨_, hparts, hload⟩ := releaseAll_same ns ops
  have href := (returns_false_iff clk cpp fuel ret hcsi hn hop).mp ⟨o, ho, ha⟩
  have hnot : ¬ Refused spp (NVMeVirt.releaseAll ns ops) req.cmd := fun h =>
    (servable_iff hr.remaining_lt req.cmd).mp hs ⟨href, h⟩
  -- only a write is refused inside the range, and the FTL has pages
  have hw : req.cmd.opcode = .write := by
    rcases href with h | h
    · exact absurd h (Nat.not_le.mpr hs.range)
    · exact h.1
  obtain ⟨hsup, hblank⟩ := hwrite hw
  have hpos : 0 < spp.ttPgs := Nat.lt_of_le_of_lt (Nat.zero_le _) hs.range
  have hsup' : LinesSuffice spp cpp (NVMeVirt.releaseAll ns ops) req.cmd := by
    refine ⟨hsup.rated, hsup.fits, ?_, ?_, ?_⟩
    · rw [hparts]
      intro i hi
      rw [hload]
      exact hsup.pages i hi
    · unfold pagesWritten
      rw [hload, hparts]
      exact hsup.lines
    · unfold pagesWritten
      rw [hload, hparts]
      exact hsup.room
  obtain ⟨fuel', o', ho'⟩ :=
    hsup'.returns clk ret (hr.releaseAll.nsOk hpos).1 (hr.geometry hpos) hblank hw
  refine ⟨fuel', o', ho', Bool.eq_true_of_not_eq_false (fun hf => ?_)⟩
  exact hnot ((returns_false_iff clk cpp fuel' ret hcsi' hn' hop).mp ⟨o', ho', hf⟩)

/-- In every reachable state: a read or a write blocks its queue exactly when its last page is
outside the FTL or it is a write that the released buffer does not hold; and where the lines
suffice for a write, a refused command is accepted in the end exactly when it does not block. -/
theorem refused_waits_iff (hr : Reachable clk cfg mem size host spp ns ops) (hop : ReadOrWrite req.cmd) :
    (Blocks clk spp cpp ns ops req ret ↔ ¬ Servable spp ns ops req.cmd) ∧
    ((req.cmd.opcode = .write → LinesSuffice spp cpp ns req.cmd ∧ AllBlank spp mem cfg.ssdPartitions) →
      (Waits clk spp cpp ns ops req ret ↔ Servable spp ns ops req.cmd)) := by
  have hblocks : Blocks clk spp cpp ns ops req ret ↔ ¬ Servable spp ns ops req.cmd := by
    rw [servable_iff hr.remaining_lt, Classical.not_not]
    exact hr.blocks_iff cpp ret hop
  refine ⟨hblocks, fun hwrite => ⟨fun hwaits => ?_, fun hs => hr.waits_of_servable hop hwrite hs⟩⟩
  by_contra hno
  exact (hblocks.mpr hno).not_waits hwaits

/-- The first state of a 64 GiB namespace: a write of 256 KiB is served. -/
theorem refused_waits_iff_64GiB : ∃ spp ns, Reachable (fun _ => 0) convSamsung970Pro
      (fun _ => zeroLeftover) (2^36) (HostOk samsung970Pro) spp ns [] ∧
    Waits (fun _ => 0) spp proParams ns [] (hostWrite 0 512) ⟨0, 0⟩ ∧
    Blocks (fun _ => 0) spp proParams ns [] (hostWrite (2^40) 8) ⟨0, 0⟩ := by
  obtain ⟨spp, hspp, hl, h2, htt, hpg, hsec, hbuf⟩ := pro_ssd_64GiB
  have hr : Reachable (fun _ => 0) convSamsung970Pro (fun _ => zeroLeftover) (2^36)
      (HostOk samsung970Pro) spp _ [] :=
    Reachable.init (convInitNamespace_eq hspp hl h2 (fun _ => zeroLeftover))
  have hblank : AllBlank spp (fun _ => zeroLeftover) 1 := fun _ _ lpn hlow hlt => by omega
  have hpos : 0 < spp.ttPgs := by omega
  have hsup : LinesSuffice spp proParams _ (hostWrite 0 512).cmd :=
    pro_linesSuffice (by decide) hpos hr hblank (by rw [hpg]; decide) rfl (by decide)
  have hlast : endLpn spp (hostWrite 0 512).cmd = 63 := by
    unfold endLpn
    rw [hsec]
    decide
  have hout : endLpn spp (hostWrite (2^40) 8).cmd = 2^37 := by
    unfold endLpn
    rw [hsec]
    decide
  have hbytes : lbaToByte (nrLba (hostWrite 0 512).cmd) ≤ spp.writeBufferSize := by
    rw [hbuf]
    decide
  refine ⟨spp, _, hr, ?_, ?_⟩
  · refine ((refused_waits_iff hr (.inr rfl)).2 (fun _ => ⟨hsup, hblank⟩)).mpr ⟨?_, fun _ => .inl hbytes⟩
    rw [hlast, htt]
    change 63 / 1 < 2^24
    decide
  · refine (refused_waits_iff hr (.inr rfl)).1.mpr (fun hs => ?_)
    have hrange : endLpn spp (hostWrite (2^40) 8).cmd / 1 < spp.ttPgs := hs.range
    omega

/-- A read of page `2^37` of 64 GiB is refused, and refused again with nothing left to wait for. -/
theorem read_out_of_range_not_waits : ∃ spp ns, Reachable (fun _ => 0) convSamsung970Pro
      (fun _ => zeroLeftover) (2^36) (HostOk samsung970Pro) spp ns [] ∧
    lbaToByte (nrLba (hostRead (2^40) 8).cmd) ≤ 2^samsung970Pro.mdts * kb 4 ∧
    ¬ Waits (fun _ => 0) spp proParams ns [] (hostRead (2^40) 8) ⟨0, 0⟩ := by
  obtain ⟨spp, hspp, hl, h2, htt, -, hsec, -⟩ := pro_ssd_64GiB
  have hr : Reachable (fun _ => 0) convSamsung970Pro (fun _ => zeroLeftover) (2^36)
      (HostOk samsung970Pro) spp _ [] :=
    Reachable.init (convInitNamespace_eq hspp hl h2 (fun _ => zeroLeftover))
  have hout : Refused spp (freshNs convSamsung970Pro.toSsdConfig (fun _ => zeroLeftover) (2^36) spp)
      (hostRead (2^40) 8).cmd := by
    refine .inl ?_
    unfold endLpn
    rw [hsec, htt]
    change 2^24 ≤ u64 (2^40 + 8 - 1) / 8 / 1
    decide
  exact ⟨spp, _, hr, by decide, ((hr.blocks_iff proParams ⟨0, 0⟩ (.inl rfl)).mpr ⟨hout, hout⟩).not_waits⟩

end Run

section Pro

variable {mem : Nat → Leftover} {size : Nat}

/-- On the SAMSUNG_970PRO configuration a transfer within MDTS that is refused waits for buffer
space exactly when its last page is a page of the FTL. -/
theorem pro_refused_waits_iff (hsize : size < 2^64)
    (hr : SteadyRun clk convSamsung970Pro mem size spp ns ops)
    (hblank : AllBlank spp mem 1) (hfit : spp.pgsPerBlk ≤ 2^pageBits) (hop : ReadOrWrite req.cmd)
    (hmdts : lbaToByte (nrLba req.cmd) ≤ 2^6 * kb 4) :
    Waits clk spp proParams ns ops req ret ↔ endLpn spp req.cmd / ns.nrParts < spp.ttPgs := by
  constructor
  · intro h
    by_contra hrange
    have hout : Refused spp ns req.cmd := .inl (Nat.le_of_not_lt hrange)
    have hout' : Refused spp (releaseAll ns ops) req.cmd := .inl (by
      rw [(releaseAll_same ns ops).2.1]
      exact Nat.le_of_not_lt hrange)
    exact ((hr.reachable.blocks_iff proParams ret hop).mpr ⟨hout, hout'⟩).not_waits h
  · intro hrange
    have hpos : 0 < spp.ttPgs := Nat.lt_of_le_of_lt (Nat.zero_le _) hrange
    refine hr.reachable.waits_of_servable hop
      (fun hw => ⟨pro_linesSuffice hsize hpos hr.reachable hblank hfit hw hmdts, hblank⟩)
      ⟨hrange, fun _ => .inr ?_⟩
    obtain ⟨⟨hsteady, hcovers⟩, hsz⟩ := hr.bufferCovered hpos
    obtain ⟨ns₀, hfresh⟩ := hr.reachable.fresh
    have hn : ns.nrParts = 1 := (hr.reachable.nsOk hpos).2.1
    -- one open one-shot page is less than 32 KiB of 4 MiB
    have hopen : openBytes spp ns < 32768 := by
      have hone := hfresh.derived.oneshot
      have honeshot : convSamsung970Pro.oneshotPageSize = 32768 := by decide
      have hmod := Nat.mod_lt (ns.load 0).wp.pg hfresh.derived.oneshot_pos
      unfold openBytes openPart
      rw [hn, Finset.sum_range_one, hfresh.derived.pgsz]
      omega
    have hbuf : u64 convSamsung970Pro.globalWbSize = 4194304 := by decide
    have hkb : 2^6 * kb 4 = 262144 := by decide
    rw [u64_eq hsteady]
    omega

end Pro

end NVMeVirt
