import NVMeVirt.Lib.Batches
import NVMeVirt.ConvConsistency

/-!
# The shared write buffer

`conv_write` takes the bytes of a command from the buffer, and gives back whole one-shot
pages when they are programmed. A book of batches keeps, next to the code, the bytes that
were taken for the pages in each open one-shot page.
-/

namespace NVMeVirt
set_option autoImplicit false
open Outcome Census Batches

/-- The bytes that a command brings for page `lpn`. -/
def pageBytes (spp : SsdParams) (cmd : NvmeCommand) (lpn : Nat) : Nat :=
  lbaToByte (min (cmd.slba + nrLba cmd) ((lpn + 1) * spp.secsPerPg) - max cmd.slba (lpn * spp.secsPerPg))

def writtenPages (spp : SsdParams) (parts : Nat) (cmd : NvmeCommand) : List (Nat × Nat) :=
  (List.range (pageCount spp cmd)).map (fun k =>
    ((startLpn spp cmd + k) % parts, pageBytes spp cmd (startLpn spp cmd + k)))

/-- The namespace, the scheduled releases, the bytes in the open one-shot pages of each
partition and in the programmed ones, and what was scheduled to be released for the latter. -/
structure BufferState where
  ns : ConvNs
  pending : List InternalOp
  book : Book Nat
  released : List Nat

section Run

variable (clk : Nat → Nat) (cfg : ConvConfig) (mem : Nat → Leftover) (size : Nat)
  (host : ConvNs → NvmevRequest → Prop) (spp : SsdParams)

inductive BufferRun : BufferState → Prop where
  | init {ns : ConvNs} (h : convInitNamespace cfg.toSsdConfig mem size = .ok (spp, ns)) :
      BufferRun ⟨ns, [], ⟨fun _ => [], []⟩, []⟩
  | write {b : BufferState} {fuel : Nat} {req : NvmevRequest} {ret : NvmevResult} {o : ProcOutcome}
      (hr : BufferRun b) (hreq : host b.ns req) (hop : req.cmd.opcode = .write)
      (h : convProcNvmeIoCmd clk spp (convInitParams cfg.toSsdConfig) fuel b.ns req ret = .ok o)
      (ha : o.accepted = true) :
      BufferRun ⟨o.ns, b.pending ++ o.ops,
        b.book.putAll spp.pgsPerOneshotpg (writtenPages spp b.ns.nrParts req.cmd),
        b.released ++ o.ops.map InternalOp.buffsToRelease⟩
  | other {b : BufferState} {fuel : Nat} {req : NvmevRequest} {ret : NvmevResult} {o : ProcOutcome}
      (hr : BufferRun b) (hreq : host b.ns req)
      (h : convProcNvmeIoCmd clk spp (convInitParams cfg.toSsdConfig) fuel b.ns req ret = .ok o)
      (hop : req.cmd.opcode ≠ .write ∨ o.accepted = false) :
      BufferRun ⟨o.ns, b.pending ++ o.ops, b.book, b.released ++ o.ops.map InternalOp.buffsToRelease⟩
  | release {b : BufferState} {op : InternalOp} (hr : BufferRun b) (h : op ∈ b.pending) :
      BufferRun { b with
        ns := { b.ns with writeBuffer := bufferRelease b.ns.writeBuffer op.buffsToRelease }
        pending := b.pending.erase op }

end Run

/-- The command covers whole 4 KiB pages and does not run past the 64-bit LBA space. -/
structure PageAligned (cmd : NvmeCommand) : Prop where
  start : cmd.slba % 8 = 0
  length : nrLba cmd % 8 = 0
  top : cmd.slba + nrLba cmd ≤ 2^64

def alignedWrites (_ : ConvNs) (req : NvmevRequest) : Prop :=
  req.cmd.opcode = .write → PageAligned req.cmd

variable {clk : Nat → Nat} {cfg : ConvConfig} {mem : Nat → Leftover} {size : Nat}
  {host : ConvNs → NvmevRequest → Prop} {spp : SsdParams} {b : BufferState}

theorem BufferRun.reachable (hr : BufferRun clk cfg mem size host spp b) :
    Reachable clk cfg mem size host spp b.ns b.pending := by
  induction hr with
  | init h => exact Reachable.init h
  | write _ hreq _ h _ ih => exact Reachable.command ih hreq h
  | other _ hreq h _ ih => exact Reachable.command ih hreq h
  | release _ h ih => exact Reachable.release ih h

theorem PageAligned.pages {cmd : NvmeCommand} (h : PageAligned cmd) (hsec : spp.secsPerPg = 8) :
    startLpn spp cmd * 8 = cmd.slba ∧ pageCount spp cmd * 8 = nrLba cmd := by
  obtain ⟨hs, hl, ht⟩ := h
  have hn : nrLba cmd = cmd.length + 1 := rfl
  unfold pageCount endLpn startLpn u64
  rw [hsec]
  omega

theorem PageAligned.pageBytes {cmd : NvmeCommand} (h : PageAligned cmd) (hsec : spp.secsPerPg = 8) {k : Nat}
    (hk : k < pageCount spp cmd) : pageBytes spp cmd (startLpn spp cmd + k) = 4096 := by
  obtain ⟨hs, hc⟩ := h.pages hsec
  unfold NVMeVirt.pageBytes
  rw [hsec]
  have he : min (cmd.slba + nrLba cmd) ((startLpn spp cmd + k + 1) * 8) -
      max cmd.slba ((startLpn spp cmd + k) * 8) = 8 := by omega
  rw [he]
  rfl

theorem writtenPages_count (spp : SsdParams) (parts : Nat) (cmd : NvmeCommand) (i : Nat) :
    (writtenPages spp parts cmd).countP (fun e => decide (e.1 = i)) =
      partPages parts (startLpn spp cmd) (pageCount spp cmd) i := by
  unfold writtenPages partPages
  rw [List.countP_map, countP_range]
  rfl

theorem PageAligned.writtenPages {cmd : NvmeCommand} (h : PageAligned cmd) (hsec : spp.secsPerPg = 8)
    (parts : Nat) : ∀ e ∈ writtenPages spp parts cmd, e.2 = 4096 := by
  intro e he
  unfold NVMeVirt.writtenPages at he
  obtain ⟨k, hk, rfl⟩ := List.mem_map.mp he
  exact h.pageBytes hsec (List.mem_range.mp hk)

structure Balanced (spp : SsdParams) (b : BufferState) : Prop where
  size_lt : b.ns.writeBuffer.size < 2^64
  total : b.ns.writeBuffer.remaining + bytesOf b.pending + openBytes spp b.ns = b.ns.writeBuffer.size
  short : b.book.Short spp.pgsPerOneshotpg
  pages : ∀ i < b.ns.nrParts,
    (b.book.openBatch i).length = (b.ns.load i).wp.pg % spp.pgsPerOneshotpg
  uniform : b.book.Uniform spp.pgsPerOneshotpg spp.pgsz
  wordlines : b.released = b.book.closed

theorem open_sum_of {book : Book Nat} {ns : ConvNs} {n : Nat} (hn : ns.nrParts = n)
    (hu : book.Uniform spp.pgsPerOneshotpg spp.pgsz)
    (hp : ∀ i < ns.nrParts, (book.openBatch i).length = (ns.load i).wp.pg % spp.pgsPerOneshotpg) :
    ∑ i ∈ Finset.range n, (book.openBatch i).sum = openBytes spp ns := by
  subst hn
  apply Finset.sum_congr rfl
  intro i hi
  rw [hu.openBatch_sum i, hp i (Finset.mem_range.mp hi)]
  rfl

theorem Balanced.open_sum (h : Balanced spp b) :
    ∑ i ∈ Finset.range b.ns.nrParts, (b.book.openBatch i).sum = openBytes spp b.ns :=
  open_sum_of rfl h.uniform h.pages

/-- Two lists of one positive number are equal if their sums are. -/
theorem eq_of_uniform {l l' : List Nat} {c : Nat} (hc : 0 < c) (h : ∀ x ∈ l, x = c) (h' : ∀ x ∈ l', x = c)
    (hs : l.sum = l'.sum) : l = l' := by
  rw [List.eq_replicate_of_mem h, List.eq_replicate_of_mem h'] at hs ⊢
  rw [List.sum_replicate_nat, List.sum_replicate_nat] at hs
  rw [Nat.eq_of_mul_eq_mul_right hc hs]

/-- The write pointers and the buffer after an accepted command are those before the GC loop. -/
theorem convProcNvmeIoCmd_accepted {M : Prop} {ns : ConvNs} {cpp : ConvParams}
    {fuel : Nat} {req : NvmevRequest}
    {ret : NvmevResult} {o : ProcOutcome} (k : NsOk spp M ns) (g : Geometry spp)
    (h : convProcNvmeIoCmd clk spp cpp fuel ns req ret = .ok o) (ha : o.accepted = true) :
    ∃ ns₁, Dispatched spp M ns req.cmd ns₁ o.ops ∧ o.ns.writeBuffer = ns₁.writeBuffer ∧
      o.ns.nrParts = ns₁.nrParts ∧ ∀ i, (o.ns.load i).wp = (ns₁.load i).wp := by
  rcases convProcNvmeIoCmd_cases h with ⟨_, rfl⟩ | ⟨ns₁, ret', ops, f, hd, hf, rfl⟩
  · cases ha
  · have hdis := (convDispatch_sat k g req ret).of_ok hd ns₁ ret' ops rfl
    have k₁ := hdis.nsOk
    obtain ⟨_, _, _, hwp⟩ := (gcWhileHigh_sound g fuel (k₁.sound 0 k₁.parts_pos)
      (fun hM => k₁.map hM 0 k₁.parts_pos)).of_ok hf
    refine ⟨ns₁, hdis, rfl, rfl, ?_⟩
    intro i
    dsimp only
    by_cases hi : i = 0
    · rw [hi, load_store_same]
      exact hwp
    · rw [load_store_other ns₁ f hi]

theorem openBytes_congr {ns ns' : ConvNs} (hn : ns'.nrParts = ns.nrParts)
    (hwp : ∀ i, (ns'.load i).wp = (ns.load i).wp) : openBytes spp ns' = openBytes spp ns := by
  unfold openBytes openPart
  rw [hn]
  apply Finset.sum_congr rfl
  intro i _
  rw [hwp]

theorem writtenPages_sum {cmd : NvmeCommand} {n c : Nat} (h : ∀ e ∈ writtenPages spp n cmd, e.2 = c) :
    ((writtenPages spp n cmd).map Prod.snd).sum = pageCount spp cmd * c := by
  have hall : ∀ x ∈ (writtenPages spp n cmd).map Prod.snd, x = c := by
    intro x hx
    obtain ⟨e, he, rfl⟩ := List.mem_map.mp hx
    exact h e he
  rw [List.eq_replicate_of_mem hall, List.sum_replicate_nat, List.length_map, writtenPages,
    List.length_map, List.length_range]

theorem Balanced.write_pages {M : Prop} {cmd : NvmeCommand} {ns₁ : ConvNs} {ops : List InternalOp}
    (h : Balanced spp b) (k : NsOk spp M b.ns) (g : Geometry spp) (hw : Written spp M b.ns cmd ns₁ ops)
    {i : Nat} (hi : i < b.ns.nrParts) :
    ((b.book.putAll spp.pgsPerOneshotpg (writtenPages spp b.ns.nrParts cmd)).openBatch i).length =
      (ns₁.load i).wp.pg % spp.pgsPerOneshotpg := by
  have hi₁ : i < ns₁.nrParts := by
    rw [hw.nrParts]
    exact hi
  rw [Book.putAll_length h.short, writtenPages_count, h.pages i hi, Nat.mod_add_mod]
  exact (wpPage_after g (k.sound i hi) (hw.ok.sound i hi₁) (hw.budget i hi)).symm

theorem Balanced.write {M : Prop} (h : Balanced spp b) (k : NsOk spp M b.ns) (g : Geometry spp)
    (hsec : spp.secsPerPg = 8) (hpgsz : spp.pgsz = 4096) {cpp : ConvParams} {fuel : Nat}
    {req : NvmevRequest} {ret : NvmevResult} {o : ProcOutcome} (hop : req.cmd.opcode = .write)
    (hal : PageAligned req.cmd)
    (hok : convProcNvmeIoCmd clk spp cpp fuel b.ns req ret = .ok o) (ha : o.accepted = true) :
    Balanced spp ⟨o.ns, b.pending ++ o.ops,
      b.book.putAll spp.pgsPerOneshotpg (writtenPages spp b.ns.nrParts req.cmd),
      b.released ++ o.ops.map InternalOp.buffsToRelease⟩ := by
  obtain ⟨ns₁, hdis, hbuf, hn, hwp⟩ := convProcNvmeIoCmd_accepted k g hok ha
  rcases hdis with ⟨hne, _⟩ | ⟨_, hw⟩
  · exact absurd hop hne
  have hcount := (hal.pages hsec).2
  have hbytes : pageCount spp req.cmd * 4096 = lbaToByte (nrLba req.cmd) := by
    unfold lbaToByte lbaSize lbaBits
    omega
  have hopen := hw.bytes
  rw [hpgsz] at hopen
  have hopen' : openBytes spp o.ns = openBytes spp ns₁ := openBytes_congr hn hwp
  have hroom := hw.room
  have huni := hal.writtenPages hsec b.ns.nrParts
  rw [← hpgsz] at huni
  have huniform := h.uniform.putAll huni
  have hpages : ∀ i < o.ns.nrParts,
      ((b.book.putAll spp.pgsPerOneshotpg (writtenPages spp b.ns.nrParts req.cmd)).openBatch i).length =
        (o.ns.load i).wp.pg % spp.pgsPerOneshotpg := by
    intro i hi
    rw [hn, hw.nrParts] at hi
    rw [hwp]
    exact h.write_pages k g hw hi
  have hrem : o.ns.writeBuffer.remaining = b.ns.writeBuffer.remaining - lbaToByte (nrLba req.cmd) := by
    rw [hbuf, hw.writeBuffer]
  have hsize : o.ns.writeBuffer.size = b.ns.writeBuffer.size := by
    rw [hbuf, hw.writeBuffer]
  have hpend : bytesOf (b.pending ++ o.ops) = bytesOf b.pending + bytesOf o.ops := bytesOf_append _ _
  have htotal : o.ns.writeBuffer.remaining + bytesOf (b.pending ++ o.ops) + openBytes spp o.ns =
      o.ns.writeBuffer.size := by
    have ht := h.total
    omega
  have hclosed : b.released ++ o.ops.map InternalOp.buffsToRelease =
      (b.book.putAll spp.pgsPerOneshotpg (writtenPages spp b.ns.nrParts req.cmd)).closed := by
    apply eq_of_uniform (Nat.mul_pos g.oneshot_pos (show 0 < spp.pgsz by omega)) ?_ huniform.closed
    · -- what is not in an open one-shot page has been released, on both sides
      have hsum := Book.putAll_total (P := spp.pgsPerOneshotpg) b.book
        (l := writtenPages spp b.ns.nrParts req.cmd) (s := Finset.range b.ns.nrParts) (by
          intro e he
          obtain ⟨j, _, rfl⟩ := List.mem_map.mp he
          exact Finset.mem_range.mpr (Nat.mod_lt _ k.parts_pos))
      have hnew : ∑ i ∈ Finset.range b.ns.nrParts, ((b.book.putAll spp.pgsPerOneshotpg
          (writtenPages spp b.ns.nrParts req.cmd)).openBatch i).sum = openBytes spp o.ns :=
        open_sum_of (hn.trans hw.nrParts) huniform hpages
      rw [hnew, writtenPages_sum huni, hpgsz, h.open_sum, ← h.wordlines] at hsum
      rw [List.sum_append]
      change _ + bytesOf o.ops = _
      omega
    · intro x hx
      rcases List.mem_append.mp hx with hx | hx
      · rw [h.wordlines] at hx
        exact h.uniform.closed x hx
      · obtain ⟨op, hmem, rfl⟩ := List.mem_map.mp hx
        exact hw.each op hmem
  refine ⟨?_, htotal, ?_, hpages, huniform, hclosed⟩
  · rw [hsize]
    exact h.size_lt
  · intro i
    rw [Book.putAll_length h.short]
    exact Nat.mod_lt _ g.oneshot_pos

theorem Balanced.idle (h : Balanced spp b) {ns : ConvNs} (hbuf : ns.writeBuffer = b.ns.writeBuffer)
    (hn : ns.nrParts = b.ns.nrParts) (hwp : ∀ i, (ns.load i).wp = (b.ns.load i).wp) :
    Balanced spp { b with ns := ns } := by
  refine ⟨?_, ?_, h.short, ?_, h.uniform, h.wordlines⟩
  · rw [hbuf]
    exact h.size_lt
  · have ht := h.total
    dsimp only
    rw [hbuf, openBytes_congr hn hwp]
    exact ht
  · intro i hi
    rw [hwp]
    exact h.pages i (hn ▸ hi)

theorem Balanced.release (h : Balanced spp b) {op : InternalOp} (hop : op ∈ b.pending) :
    Balanced spp { b with
      ns := { b.ns with writeBuffer := bufferRelease b.ns.writeBuffer op.buffsToRelease }
      pending := b.pending.erase op } := by
  have hsum := bytesOf_erase hop
  have ht := h.total
  have hlt := h.size_lt
  refine ⟨hlt, ?_, h.short, h.pages, h.uniform, h.wordlines⟩
  change u64 (b.ns.writeBuffer.remaining + op.buffsToRelease) + bytesOf (b.pending.erase op) +
    openBytes spp b.ns = b.ns.writeBuffer.size
  rw [u64_eq (by omega)]
  omega

theorem BufferRun.balanced (hr : BufferRun clk cfg mem size alignedWrites spp b) (hpos : 0 < spp.ttPgs) :
    Balanced spp b := by
  have g := hr.reachable.geometry hpos
  obtain ⟨ns₀, hfresh⟩ := hr.reachable.fresh
  have hsec := hfresh.derived.secsPerPg
  have hpgsz := hfresh.derived.pgsz
  induction hr with
  | init h =>
    have hf := convInitNamespace_ok h
    have hwp : ∀ i < _, (ConvNs.load _ i).wp = ⟨0, 0, 0, 0, 0, 0⟩ := fun i hi => by rw [hf.load i hi]; rfl
    refine ⟨?_, ?_, fun _ => g.oneshot_pos, ?_, ⟨?_, ?_⟩, rfl⟩
    · dsimp only
      rw [hf.writeBuffer]
      exact Nat.mod_lt _ (by decide)
    · dsimp only
      rw [hf.writeBuffer]
      have hz : openBytes spp _ = 0 := Finset.sum_eq_zero (fun i hi => by
        unfold openPart
        rw [hwp i (Finset.mem_range.mp hi), Nat.zero_mod, Nat.zero_mul])
      rw [hz]
      rfl
    · intro i hi
      dsimp only
      rw [hwp i hi, Nat.zero_mod]
      rfl
    · exact fun _ _ hw => nomatch hw
    · exact fun _ hw => nomatch hw
  | write hr hreq hop h ha ih =>
    exact ih.write (hr.reachable.nsOk hpos).1 g hsec hpgsz hop (hreq hop) h ha
  | other hr hreq h hop ih =>
    rename_i b₁ fuel req ret o
    have k := (hr.reachable.nsOk hpos).1
    by_cases ha : o.accepted = true
    · obtain ⟨ns₁, hdis, hbuf, hn, hwp⟩ := convProcNvmeIoCmd_accepted k g h ha
      rcases hdis with ⟨_, _, hid, hops⟩ | ⟨hwr, _⟩
      · rw [hops, List.append_nil, List.map_nil, List.append_nil]
        refine ih.idle (hbuf.trans hid.shell.writeBuffer) (hn.trans hid.shell.nrParts) ?_
        intro i
        obtain ⟨ssd, he, _⟩ := hid.slept i
        rw [hwp, he]
      · rcases hop with hne | hno
        · exact absurd hwr hne
        · rw [ha] at hno
          cases hno
    · rcases convProcNvmeIoCmd_cases h with ⟨_, rfl⟩ | ⟨ns₁, ret', ops, f, _, _, rfl⟩
      · rw [List.append_nil, List.map_nil, List.append_nil]
        exact ih
      · exact absurd rfl ha
  | release hr h ih => exact ih.release h

/-- With no pages no write is accepted and the buffer is not used. -/
theorem BufferRun.untouched (hr : BufferRun clk cfg mem size host spp b) (hz : spp.ttPgs = 0) :
    b.pending = [] ∧ b.released = [] ∧ b.book = ⟨fun _ => [], []⟩ ∧
      b.ns.writeBuffer.remaining = b.ns.writeBuffer.size := by
  induction hr with
  | init h =>
    have hf := convInitNamespace_ok h
    refine ⟨rfl, rfl, rfl, ?_⟩
    dsimp only
    rw [hf.writeBuffer]
    rfl
  | write hr hreq hop h ha ih =>
    rename_i b₁ fuel req ret o
    obtain ⟨_, hp, _, _⟩ := hr.reachable.frozen hz
    rcases convProcNvmeIoCmd_cases h with ⟨_, rfl⟩ | ⟨ns₁, ret', ops, f, hd, _, rfl⟩
    · cases ha
    · unfold convDispatch convWrite at hd
      simp [hop, Nat.ne_of_gt hp, hz] at hd
  | other hr hreq h hop ih =>
    rename_i b₁ fuel req ret o
    obtain ⟨hpend, hrel, hbook, hbuf⟩ := ih
    obtain ⟨_, hp, _, hall⟩ := hr.reachable.frozen hz
    obtain ⟨ssd, he, _⟩ := hall 0 hp
    obtain ⟨hid, hops⟩ := convProcNvmeIoCmd_no_pages hz hp (by rw [he]; rfl) h
    refine ⟨?_, ?_, hbook, ?_⟩
    · rw [hpend, hops]
      rfl
    · rw [hrel, hops]
      rfl
    · dsimp only
      rw [hid.shell.writeBuffer]
      exact hbuf
  | release hr h ih =>
    rw [ih.1] at h
    cases h

end NVMeVirt
