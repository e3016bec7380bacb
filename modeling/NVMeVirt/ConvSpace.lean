import NVMeVirt.ConvConsistency

/-!
# Free lines

Host writes use up the lines of every partition, the GC loop refills those of the first
one only. How many free lines a command leaves, and why collection always finds enough to
collect in a namespace of one partition.
-/

namespace NVMeVirt
set_option autoImplicit false
open Outcome Census

variable {clk : Nat → Nat} {spp : SsdParams} {cpp : ConvParams} {M : Prop} {ns : ConvNs}
  {req : NvmevRequest} {ret : NvmevResult}

theorem Sound.wpIndex_lt {s : ConvFtl} {held : Option Nat} (hs : Sound spp s held) (g : Geometry spp)
    (io : IoType) : wpIndex spp (getWp s io) < spp.pgsPerLine := by
  obtain ⟨h, fill, i, _⟩ := hs
  exact (i.wp io).index_lt g.wordlines

theorem Sound.free_cnt {s : ConvFtl} {held : Option Nat} (hs : Sound spp s held) :
    s.lm.freeLineCnt = s.lm.freeLineList.length := by
  obtain ⟨h, fill, i, _⟩ := hs
  exact i.shelved.free_cnt

/-- The lines that `n` more pages close are taken from the free list. -/
theorem free_after {s s' : ConvFtl} (g : Geometry spp) (hs : Sound spp s none) (hs' : Sound spp s' none)
    {n : Nat} (hb : budget spp s .user = budget spp s' .user + n) :
    s'.lm.freeLineCnt + (wpIndex spp s.wp + n) / spp.pgsPerLine = s.lm.freeLineCnt := by
  have hlt : wpIndex spp s.wp < spp.pgsPerLine := hs.wpIndex_lt g .user
  have hlt' : wpIndex spp s'.wp < spp.pgsPerLine := hs'.wpIndex_lt g .user
  rw [hs.free_cnt, hs'.free_cnt]
  simp only [budget, getWp] at hb
  have he : wpIndex spp s.wp + n + s'.lm.freeLineList.length * spp.pgsPerLine =
      wpIndex spp s'.wp + s.lm.freeLineList.length * spp.pgsPerLine := by omega
  have hd := congrArg (fun m => m / spp.pgsPerLine) he
  rw [Nat.add_mul_div_right _ _ (line_pos g), Nat.add_mul_div_right _ _ (line_pos g),
    Nat.div_eq_of_lt hlt'] at hd
  omega

/-- The pages that a command writes to partition `i`. -/
def pagesWritten (spp : SsdParams) (ns : ConvNs) (cmd : NvmeCommand) (i : Nat) : Nat :=
  if cmd.opcode = .write then partPages ns.nrParts (startLpn spp cmd) (pageCount spp cmd) i else 0

theorem Slept.freeLineCnt {s s' : ConvFtl} (h : Slept s s') : s'.lm.freeLineCnt = s.lm.freeLineCnt := by
  obtain ⟨ssd, rfl, _⟩ := h
  rfl

theorem Dispatched.free_after (g : Geometry spp) (k : NsOk spp M ns) {cmd : NvmeCommand} {ns₁ : ConvNs}
    {ops : List InternalOp} (h : Dispatched spp M ns cmd ns₁ ops) {i : Nat} (hi : i < ns.nrParts) :
    (ns₁.load i).lm.freeLineCnt +
      (wpIndex spp (ns.load i).wp + pagesWritten spp ns cmd i) / spp.pgsPerLine =
      (ns.load i).lm.freeLineCnt := by
  unfold pagesWritten
  rcases h with ⟨hop, _, hid, _⟩ | ⟨hop, hw⟩
  · have hlt : wpIndex spp (ns.load i).wp < spp.pgsPerLine := (k.sound i hi).wpIndex_lt g .user
    rw [if_neg hop, Nat.add_zero, Nat.div_eq_of_lt hlt, (hid.slept i).freeLineCnt]
    rfl
  · rw [if_pos hop]
    exact NVMeVirt.free_after g (k.sound i hi) (hw.ok.sound i (by rw [hw.nrParts]; exact hi))
      (hw.budget i hi)

section Run

variable {cfg : ConvConfig} {mem : Nat → Leftover} {size : Nat} {host : ConvNs → NvmevRequest → Prop}
  {ops : List InternalOp}

theorem free_after_command (hr : Reachable clk cfg mem size host spp ns ops) {fuel : Nat} {o : ProcOutcome}
    (h : convProcNvmeIoCmd clk spp cpp fuel ns req ret = .ok o) (ha : o.accepted = true) :
    o.ns.nrParts = ns.nrParts ∧ cpp.gcThresLinesHigh < (o.ns.load 0).lm.freeLineCnt ∧
      ∀ i, 0 < i → i < ns.nrParts → (o.ns.load i).lm.freeLineCnt +
        (wpIndex spp (ns.load i).wp + pagesWritten spp ns req.cmd i) / spp.pgsPerLine =
        (ns.load i).lm.freeLineCnt := by
  rcases convProcNvmeIoCmd_cases h with ⟨_, rfl⟩ | ⟨ns₁, ret', ops', f, hd, hf, rfl⟩
  · exact nomatch ha
  · have hother : ∀ i, 0 < i → ((ns₁.store 0 f).load i).lm.freeLineCnt = (ns₁.load i).lm.freeLineCnt := by
      intro i hi
      rw [load_store_other ns₁ f (by omega)]
    have hfirst : cpp.gcThresLinesHigh < ((ns₁.store 0 f).load 0).lm.freeLineCnt := by
      rw [load_store_same]
      exact gcWhileHigh_exit hf
    rcases Nat.eq_zero_or_pos spp.ttPgs with hz | hpos
    · obtain ⟨ns₀, hfresh⟩ := hr.fresh
      obtain ⟨_, hp, _, _⟩ := hr.frozen hz
      obtain ⟨r, hok, hidle⟩ := convDispatch_no_pages clk hz hp req ret
      rw [hd] at hok
      obtain ⟨hid, _⟩ := hidle ns₁ ret' ops' (Except.ok.inj hok).symm
      have hline : spp.pgsPerLine = 0 := by
        rw [(hfresh.derived.counts hfresh.lines).2.2.2.2.1, (hfresh.derived.no_pages hfresh.lines hz).1,
          Nat.mul_zero]
      refine ⟨hid.shell.nrParts, hfirst, ?_⟩
      intro i hi _
      dsimp only
      rw [hline, Nat.div_zero, hother i hi, (hid.slept i).freeLineCnt, Nat.add_zero]
    · have g := hr.geometry hpos
      have k := (hr.nsOk hpos).1
      have hdis := (convDispatch_sat k g req ret).of_ok hd ns₁ ret' ops' rfl
      refine ⟨hdis.nrParts, hfirst, ?_⟩
      intro i hi hlt
      dsimp only
      rw [hother i hi]
      exact hdis.free_after g k hlt

/-- After an accepted command every partition is above the threshold, exactly when the pages
that the command writes leave enough free lines in the partitions that the GC loop does not serve. -/
theorem free_lines_iff (hr : Reachable clk cfg mem size host spp ns ops) {fuel : Nat} {o : ProcOutcome}
    (h : convProcNvmeIoCmd clk spp (convInitParams cfg.toSsdConfig) fuel ns req ret = .ok o)
    (ha : o.accepted = true) :
    (∀ i < o.ns.nrParts, (convInitParams cfg.toSsdConfig).gcThresLinesHigh < (o.ns.load i).lm.freeLineCnt) ↔
    ∀ i, 0 < i → i < ns.nrParts → (convInitParams cfg.toSsdConfig).gcThresLinesHigh +
      (wpIndex spp (ns.load i).wp + pagesWritten spp ns req.cmd i) / spp.pgsPerLine <
        (ns.load i).lm.freeLineCnt := by
  obtain ⟨hn, hfirst, hafter⟩ := free_after_command hr h ha
  constructor
  · intro hall i hi hlt
    have hfree := hall i (by omega)
    have heq := hafter i hi hlt
    omega
  · intro hroom i hlt
    rcases Nat.eq_zero_or_pos i with rfl | hi
    · exact hfirst
    · have hleft := hroom i hi (by omega)
      have heq := hafter i hi (by omega)
      omega

theorem free_lines_iff_twoPartitions : ∃ spp ns o, Reachable (fun _ => 0) twoPartitions
      (fun _ => zeroLeftover) 90112 anyRequest spp ns [] ∧
    convProcNvmeIoCmd (fun _ => 0) spp (convInitParams twoPartitions.toSsdConfig) 0 ns (hostWrite 8 8)
      ⟨0, 0⟩ = .ok o ∧ o.accepted = true ∧
    ((∀ i < o.ns.nrParts, (convInitParams twoPartitions.toSsdConfig).gcThresLinesHigh <
        (o.ns.load i).lm.freeLineCnt) ↔
      ∀ i, 0 < i → i < ns.nrParts → (convInitParams twoPartitions.toSsdConfig).gcThresLinesHigh +
        (wpIndex spp (ns.load i).wp + pagesWritten spp ns (hostWrite 8 8).cmd i) / spp.pgsPerLine <
          (ns.load i).lm.freeLineCnt) := by
  obtain ⟨spp, ns, o, hr, _, _, h, ha, _, _⟩ := twoPartitions_write anyRequest
  exact ⟨spp, ns, o, hr, h, ha, free_lines_iff hr h ha⟩

/-- One page written to the second partition closes a line, and nothing refills its free list. -/
theorem free_lines_fail_twoPartitions : ∃ spp ns o, Reachable (fun _ => 0) twoPartitions
      (fun _ => zeroLeftover) 90112 (HostOk twoPartitions.toSsdConfig) spp ns [] ∧
    HostOk twoPartitions.toSsdConfig ns (hostWrite 8 8) ∧
    convProcNvmeIoCmd (fun _ => 0) spp (convInitParams twoPartitions.toSsdConfig) 0 ns (hostWrite 8 8)
      ⟨0, 0⟩ = .ok o ∧ o.accepted = true ∧ 1 < o.ns.nrParts ∧
    ¬ (convInitParams twoPartitions.toSsdConfig).gcThresLinesHigh < (o.ns.load 1).lm.freeLineCnt := by
  obtain ⟨spp, ns, o, hr, hsize, _, h, ha, hn, hfree⟩ :=
    twoPartitions_write (HostOk twoPartitions.toSsdConfig)
  refine ⟨spp, ns, o, hr, ⟨fun _ => ?_, fun _ => by decide⟩, h, ha, by omega, ?_⟩
  · rw [hsize]
    decide
  · rw [hfree]
    decide

end Run

end NVMeVirt
