import NVMeVirt.ConvSpace

/-!
# Over-provisioning

The host sees fewer pages than the lines hold. While few lines are free, the valid pages
cannot fill all the closed ones, so one of them has an invalid page and can be collected;
each collection removes invalid pages, so the GC loop ends.
-/

namespace NVMeVirt
set_option autoImplicit false
open Outcome Census TwoWay

variable {clk : Nat → Nat} {spp : SsdParams} {cpp : ConvParams} {M : Prop} {s : ConvFtl}

theorem validPages_card (hs : Sound spp s none) (g : Geometry spp) :
    ((physicalPages spp).filter (fun ppa => pageStatus s ppa = .valid)).card =
      ∑ x ∈ Finset.range spp.blksPerPl, (s.lm.lines x).vpc := by
  obtain ⟨h, fill, i, _, hheld⟩ := hs
  have hline : ∀ x ∈ Finset.range spp.blksPerPl, (s.lm.lines x).vpc =
      ∑ c ∈ Finset.range spp.nchs, ∑ l ∈ Finset.range spp.lunsPerCh, ∑ p ∈ Finset.range spp.pgsPerBlk,
        if pageStatus s (pageAt c l x p) = .valid then 1 else 0 := by
    intro x hx
    have hc := i.contents x (Finset.mem_range.mp hx) (fun he => nomatch (hheld x).mp he)
    rw [hc.vpc]
    apply Finset.sum_congr rfl
    intro c hcc
    apply Finset.sum_congr rfl
    intro l hll
    change (blockAt s c l x).vpc = _
    rw [(hc.census c (Finset.mem_range.mp hcc) l (Finset.mem_range.mp hll)).vpc, tally_eq_sum]
    apply Finset.sum_congr rfl
    intro p _
    simp only [hasStatus_true]
    rfl
  rw [Finset.sum_congr rfl hline]
  unfold physicalPages
  rw [Finset.filter_image, Finset.card_image_of_injective, Finset.card_filter, g.pls_eq]
  · simp only [Finset.sum_product, Finset.sum_range_one]
    exact (Finset.sum_comm.trans (Finset.sum_congr rfl (fun c _ => Finset.sum_comm))).symm
  · rintro ⟨c, l, pl, x, p⟩ ⟨c', l', pl', x', p'⟩ he
    simp only [Ppa.mk.injEq] at he
    obtain ⟨rfl, rfl, rfl, rfl, rfl, _⟩ := he
    rfl

/-- The number of logical pages with an entry in the mapping table. -/
def mappedPages (spp : SsdParams) (s : ConvFtl) : Nat :=
  ((Finset.range spp.ttPgs).filter (fun lpn => s.maptbl lpn ≠ unmappedPpa)).card

/-- The mapped pages are below `n`. -/
def MappedBelow (spp : SsdParams) (s : ConvFtl) (n : Nat) : Prop :=
  ∀ lpn < spp.ttPgs, s.maptbl lpn ≠ unmappedPpa → lpn < n

theorem MappedBelow.card {n : Nat} (hn : MappedBelow spp s n) : mappedPages spp s ≤ n := by
  calc mappedPages spp s ≤ (Finset.range n).card := by
        apply Finset.card_le_card
        intro lpn hmem
        rw [Finset.mem_filter, Finset.mem_range] at hmem
        exact Finset.mem_range.mpr (hn lpn hmem.1 hmem.2)
    _ = n := Finset.card_range n

theorem mappedPages_mono {s' : ConvFtl}
    (h : ∀ lpn < spp.ttPgs, s.maptbl lpn = unmappedPpa → s'.maptbl lpn = unmappedPpa) :
    mappedPages spp s' ≤ mappedPages spp s := by
  apply Finset.card_le_card
  intro lpn hmem
  rw [Finset.mem_filter, Finset.mem_range] at hmem ⊢
  exact ⟨hmem.1, fun hu => hmem.2 (h lpn hmem.1 hu)⟩

theorem sum_vpc_eq (hs : Sound spp s none) (g : Geometry spp) (m : MapOk spp s (ValidPage spp s)) :
    ∑ x ∈ Finset.range spp.blksPerPl, (s.lm.lines x).vpc = mappedPages spp s := by
  rw [← validPages_card hs g, ← (m.tablesInverse g).count]
  rfl

theorem lines_le_of_no_victim (hs : Sound spp s none) (hq : s.lm.victimLinePq.size = 1) :
    spp.blksPerPl ≤ s.lm.freeLineList.length + s.lm.fullLineList.length + 2 := by
  obtain ⟨h, fill, i, _, hheld⟩ := hs
  have hcover : Finset.range spp.blksPerPl ⊆
      s.lm.freeLineList.toFinset ∪ s.lm.fullLineList.toFinset ∪ {s.wp.curline, s.gcWp.curline} := by
    intro x hx
    have hlt := Finset.mem_range.mp hx
    simp only [Finset.mem_union, List.mem_toFinset, Finset.mem_insert, Finset.mem_singleton]
    cases hk : h x with
    | free => exact Or.inl (Or.inl ((i.shelved.free_mem x).mpr ⟨hlt, hk⟩))
    | full => exact Or.inl (Or.inr ((i.shelved.full_mem x).mpr ⟨hlt, hk⟩))
    | victim =>
      obtain ⟨j, hj, hj', _⟩ := (i.shelved.pq.mem x).mp ⟨hlt, hk⟩
      omega
    | user => exact Or.inr (Or.inl ((i.cur .user x).mpr ⟨hlt, hk⟩).symm)
    | gc => exact Or.inr (Or.inr ((i.cur .gc x).mpr ⟨hlt, hk⟩).symm)
    | held => exact nomatch (hheld x).mp hk
  have hle := Finset.card_le_card hcover
  rw [Finset.card_range] at hle
  have h₁ := Finset.card_union_le (s.lm.freeLineList.toFinset ∪ s.lm.fullLineList.toFinset)
    {s.wp.curline, s.gcWp.curline}
  have h₂ := Finset.card_union_le s.lm.freeLineList.toFinset s.lm.fullLineList.toFinset
  have h₃ : ({s.wp.curline, s.gcWp.curline} : Finset Nat).card ≤ 2 := Finset.card_le_two
  have h₄ := List.toFinset_card_le s.lm.freeLineList
  have h₅ := List.toFinset_card_le s.lm.fullLineList
  omega

theorem full_lines_le (hs : Sound spp s none) :
    s.lm.fullLineList.length * spp.pgsPerLine ≤ ∑ x ∈ Finset.range spp.blksPerPl, (s.lm.lines x).vpc := by
  obtain ⟨h, fill, i, _, _⟩ := hs
  calc s.lm.fullLineList.length * spp.pgsPerLine
      = ∑ x ∈ s.lm.fullLineList.toFinset, spp.pgsPerLine := by
        rw [Finset.sum_const, List.toFinset_card_of_nodup i.shelved.full_nodup, smul_eq_mul]
    _ = ∑ x ∈ s.lm.fullLineList.toFinset, (s.lm.lines x).vpc := by
        apply Finset.sum_congr rfl
        intro x hx
        obtain ⟨hlt, hk⟩ := (i.shelved.full_mem x).mp (List.mem_toFinset.mp hx)
        exact (i.full_vpc x hlt hk).symm
    _ ≤ ∑ x ∈ Finset.range spp.blksPerPl, (s.lm.lines x).vpc := by
        apply Finset.sum_le_sum_of_subset
        intro x hx
        exact Finset.mem_range.mpr ((i.shelved.full_mem x).mp (List.mem_toFinset.mp hx)).1

/-- Few free lines and few mapped pages leave something to collect. -/
theorem victim_exists (hs : Sound spp s none) (g : Geometry spp) (m : MapOk spp s (ValidPage spp s))
    {n t : Nat} (hn : mappedPages spp s ≤ n) (hfree : s.lm.freeLineCnt ≤ t)
    (hroom : n + (t + 2) * spp.pgsPerLine < spp.blksPerPl * spp.pgsPerLine) :
    s.lm.victimLinePq.size ≠ 1 := by
  intro hq
  have hlines := lines_le_of_no_victim hs hq
  have hsum := sum_vpc_eq hs g m
  have hfull := full_lines_le hs
  rw [hs.free_cnt] at hfree
  have hmul : spp.blksPerPl * spp.pgsPerLine ≤
      (t + 2) * spp.pgsPerLine + s.lm.fullLineList.length * spp.pgsPerLine := by
    rw [← Nat.add_mul]
    exact Nat.mul_le_mul_right _ (by omega)
  omega

def invalidPages (spp : SsdParams) (s : ConvFtl) : Nat :=
  ∑ x ∈ Finset.range spp.blksPerPl, (s.lm.lines x).ipc

theorem Collected.invalidPages_lt {s' : ConvFtl} {v : Nat} (hc : Collected spp M s v s')
    (hv : v < spp.blksPerPl) (hipc : 0 < (s.lm.lines v).ipc) : invalidPages spp s' < invalidPages spp s := by
  have hsum := sum_swap (f := fun x => (s'.lm.lines x).ipc) (g := fun x => (s.lm.lines x).ipc) hv
    (fun x _ hx => hc.ipc x hx)
  rw [hc.ipc_victim] at hsum
  unfold invalidPages
  omega

theorem invalidPages_le (hs : Sound spp s none) (g : Geometry spp) : invalidPages spp s ≤ spp.ttPgs := by
  obtain ⟨h, fill, i, _, hheld⟩ := hs
  calc invalidPages spp s
      ≤ ∑ x ∈ Finset.range spp.blksPerPl, spp.pgsPerLine := by
        apply Finset.sum_le_sum
        intro x hx
        have hle := (i.contents x (Finset.mem_range.mp hx) (fun he => nomatch (hheld x).mp he)).le_line g
        omega
    _ = spp.ttPgs := by
        rw [Finset.sum_const, Finset.card_range, smul_eq_mul, g.tt_eq, g.ch_eq, g.lun_eq, g.pl_eq, g.line_eq]
        ring

/-- Total correctness of `while (should_gc_high(..)) do_gc(.., true)`. -/
theorem gcWhileHigh_returns (clk : Nat → Nat) (g : Geometry spp) (hrated : Rated spp) {n fuel : Nat}
    (hroom : n + (cpp.gcThresLinesHigh + 2) * spp.pgsPerLine < spp.blksPerPl * spp.pgsPerLine)
    (hs : Sound spp s none) (m : MapOk spp s (ValidPage spp s)) (hn : mappedPages spp s ≤ n)
    (hbudget : spp.pgsPerLine < budget spp s .gc) (hfuel : invalidPages spp s < fuel) :
    ∃ s', gcWhileHigh clk spp cpp fuel s = .ok s' := by
  induction fuel generalizing s with
  | zero => exact absurd hfuel (Nat.not_lt_zero _)
  | succ fuel ih =>
    unfold gcWhileHigh
    by_cases hgc : shouldGcHigh cpp s = true
    · rw [if_pos hgc]
      have hfree : s.lm.freeLineCnt ≤ cpp.gcThresLinesHigh := by simpa [shouldGcHigh] using hgc
      have hgcs : Sat (doGc clk spp cpp s true) _ (GcExcuse spp True s) := doGc_sat hs g (fun _ => m) true
      obtain ⟨⟨s₁, r⟩, hok, hcase⟩ := hgcs.returns (by
        rintro _ (he | he | he)
        · exact he hrated
        · exact he trivial
        · omega)
      rw [hok, ok_bind]
      rcases hcase with ⟨_, hempty⟩ | ⟨v, hv, hipc, hcol⟩
      · exact absurd (hempty rfl) (victim_exists hs g m hn hfree hroom)
      · change Collected spp True s v s₁ at hcol
        have hlt := hcol.invalidPages_lt hv hipc
        have hle := hcol.budget
        have hmono := mappedPages_mono (hcol.unmapped trivial)
        exact ih hcol.sound (hcol.map trivial) (Nat.le_trans hmono hn) (by omega) (by omega)
    · rw [if_neg hgc]
      exact ⟨s, rfl⟩

variable {ns : ConvNs} {req : NvmevRequest} {ret : NvmevResult}

/-- The number of pages that the host can address. -/
def visiblePages (ns : ConvNs) : Nat := (ns.size + 4095) / 4096

/-- Enough free lines, and only pages that the host can address are mapped. -/
structure Spacious (spp : SsdParams) (cpp : ConvParams) (ns : ConvNs) : Prop where
  free : cpp.gcThresLinesHigh < (ns.load 0).lm.freeLineCnt
  mapped : MappedBelow spp (ns.load 0) (visiblePages ns)

theorem HostOk.endLpn_lt {cfg : SsdConfig} (h : HostOk cfg ns req) (hop : req.cmd.opcode = .write)
    (hsec : spp.secsPerPg = 8) : endLpn spp req.cmd < visiblePages ns := by
  have hr := h.range (Or.inr hop)
  unfold endLpn visiblePages u64 nrLba at *
  have hl : lbaSize = 512 := by decide
  rw [hl] at hr
  rw [hsec]
  omega

/-- A transfer of `MDTS` touches one page more when it is not aligned. -/
theorem pageCount_le_of_mdts {cmd : NvmeCommand} (hsec : spp.secsPerPg = 8)
    (hm : lbaToByte (nrLba cmd) ≤ 2^6 * kb 4) : pageCount spp cmd ≤ 65 := by
  have hl : lbaSize = 512 := by decide
  have hk : 2^6 * kb 4 = 262144 := by decide
  unfold lbaToByte nrLba at hm
  rw [hk, hl] at hm
  unfold pageCount endLpn startLpn u64 nrLba
  rw [hsec]
  omega

theorem HostOk.pageCount_le {cfg : SsdConfig} (h : HostOk cfg ns req) (hop : req.cmd.opcode = .write)
    (hsec : spp.secsPerPg = 8) (hmdts : cfg.mdts = 6) : pageCount spp req.cmd ≤ 65 := by
  have hm := h.mdts (Or.inr hop)
  rw [hmdts] at hm
  exact pageCount_le_of_mdts hsec hm

theorem Idle.mappedBelow {ns₁ : ConvNs} (h : Idle ns ns₁) {n : Nat} (hm : MappedBelow spp (ns.load 0) n) :
    MappedBelow spp (ns₁.load 0) n := by
  obtain ⟨ssd, he, _⟩ := h.slept 0
  rw [he]
  exact hm

theorem Dispatched.mappedBelow {cmd : NvmeCommand} {ns₁ : ConvNs} {ops : List InternalOp}
    (h : Dispatched spp M ns cmd ns₁ ops) (hone : ns.nrParts = 1) {n : Nat}
    (hend : cmd.opcode = .write → endLpn spp cmd < n) (hm : MappedBelow spp (ns.load 0) n) :
    MappedBelow spp (ns₁.load 0) n := by
  rcases h with ⟨_, _, hid, _⟩ | ⟨hop, hw⟩
  · exact hid.mappedBelow hm
  · intro lpn hl hne
    by_cases hle : lpn ≤ endLpn spp cmd
    · exact Nat.lt_of_le_of_lt hle (hend hop)
    · apply hm lpn hl
      rw [← hw.maptbl 0 lpn]
      · exact hne
      · rintro lpn' _ hle' ⟨_, hd⟩
        rw [hone, Nat.div_one] at hd
        omega

theorem Spacious.command {cfg : SsdConfig} (k : NsOk spp M ns) (g : Geometry spp) (hM : M)
    (hone : ns.nrParts = 1) (hsec : spp.secsPerPg = 8) (hsp : Spacious spp cpp ns)
    (hreq : HostOk cfg ns req) {fuel : Nat} {o : ProcOutcome}
    (h : convProcNvmeIoCmd clk spp cpp fuel ns req ret = .ok o) : Spacious spp cpp o.ns := by
  rcases convProcNvmeIoCmd_cases h with ⟨_, rfl⟩ | ⟨ns₁, ret', ops, f, hd, hf, rfl⟩
  · exact hsp
  · have hdis := (convDispatch_sat k g req ret).of_ok hd ns₁ ret' ops rfl
    have k₁ := hdis.nsOk
    have hm₁ := hdis.mappedBelow hone (fun hop => hreq.endLpn_lt hop hsec) hsp.mapped
    obtain ⟨_, _, hun, _⟩ := (gcWhileHigh_sound g fuel (k₁.sound 0 k₁.parts_pos)
      (fun hM => k₁.map hM 0 k₁.parts_pos)).of_ok hf
    refine ⟨?_, ?_⟩
    · dsimp only
      rw [load_store_same]
      exact gcWhileHigh_exit hf
    · dsimp only
      rw [load_store_same, show visiblePages (ns₁.store 0 f) = visiblePages ns by
        unfold visiblePages
        rw [← hdis.size]
        rfl]
      intro lpn hl hne
      exact hm₁ lpn hl (fun hu => hne (hun hM lpn hl hu))

/-- What the counting argument needs from the geometry: lines of more than 65 pages, and
room for `gc_thres_lines_high + 2` lines beside all visible pages. -/
structure Provisioned (spp : SsdParams) (cpp : ConvParams) (ns : ConvNs) : Prop where
  line : 65 < spp.pgsPerLine
  thres : 1 < cpp.gcThresLinesHigh
  room : visiblePages ns + (cpp.gcThresLinesHigh + 2) * spp.pgsPerLine < spp.blksPerPl * spp.pgsPerLine

/-- A command returns when the pages of the FTL hold what a write adds and a free line is left for
the copies of the GC loop. -/
theorem command_returns (clk : Nat → Nat) (ret : NvmevResult) (k : NsOk spp M ns)
    (g : Geometry spp) (hM : M) (hfits : Fits spp) (hrated : Rated spp)
    (hpages : req.cmd.opcode = .write → ∀ i < ns.nrParts,
      pageCount spp req.cmd < budget spp (ns.load i) .user)
    (hlines : (wpIndex spp (ns.load 0).wp + pagesWritten spp ns req.cmd 0) / spp.pgsPerLine <
      (ns.load 0).lm.freeLineCnt)
    {n : Nat} (hroom : n + (cpp.gcThresLinesHigh + 2) * spp.pgsPerLine < spp.blksPerPl * spp.pgsPerLine)
    (hmapped : ∀ {ns₁ ops}, Dispatched spp M ns req.cmd ns₁ ops → mappedPages spp (ns₁.load 0) ≤ n)
    {fuel : Nat} (hfuel : spp.ttPgs < fuel) :
    ∃ o, convProcNvmeIoCmd clk spp cpp fuel ns req ret = .ok o := by
  have hsat : Sat (convDispatch clk spp ns req ret) _ _ := convDispatch_sat k g req ret
  obtain ⟨r, hd, hdis⟩ := hsat.returns (by
    rintro _ (he | ⟨hop, he | he | he | ⟨i, hi, he⟩⟩)
    · exact he hrated
    · exact he hrated
    · exact he hM
    · exact he hfits
    · have := hpages hop i hi
      omega)
  unfold convProcNvmeIoCmd
  rw [nvmevAssert_true k.csi, ok_bind, hd, ok_bind]
  cases r with
  | none => exact ⟨_, rfl⟩
  | some p =>
    obtain ⟨ns₁, ret', ops⟩ := p
    have hdis := hdis ns₁ ret' ops rfl
    have k₁ := hdis.nsOk
    have hs₁ := k₁.sound 0 k₁.parts_pos
    have hafter := hdis.free_after g k k.parts_pos
    -- a free line is left for the pages that the GC loop copies
    have hbudget : spp.pgsPerLine < budget spp (ns₁.load 0) .gc := by
      have hgc : wpIndex spp (getWp (ns₁.load 0) .gc) < spp.pgsPerLine := hs₁.wpIndex_lt g .gc
      have hlen : 1 ≤ (ns₁.load 0).lm.freeLineList.length := by
        rw [← hs₁.free_cnt]
        omega
      have hmul := Nat.mul_le_mul_right spp.pgsPerLine hlen
      unfold budget
      omega
    obtain ⟨f, hf⟩ := gcWhileHigh_returns clk g hrated hroom hs₁ (k₁.map hM 0 k₁.parts_pos)
      (hmapped hdis) hbudget (Nat.lt_of_le_of_lt (invalidPages_le hs₁ g) hfuel)
    dsimp only
    rw [hf, ok_bind]
    exact ⟨_, rfl⟩

/-- With two free lines the pages of a write are there, and the write closes one line at most. -/
theorem NsOk.write_fits (k : NsOk spp M ns) (g : Geometry spp) (hline : 65 < spp.pgsPerLine)
    (hfree : 2 ≤ (ns.load 0).lm.freeLineCnt) {cmd : NvmeCommand}
    (hcount : cmd.opcode = .write → pageCount spp cmd ≤ 65) :
    (cmd.opcode = .write → pageCount spp cmd < budget spp (ns.load 0) .user) ∧
      pagesWritten spp ns cmd 0 ≤ 65 ∧
      (wpIndex spp (ns.load 0).wp + pagesWritten spp ns cmd 0) / spp.pgsPerLine <
        (ns.load 0).lm.freeLineCnt := by
  have hs := k.sound 0 k.parts_pos
  have hwp : wpIndex spp (ns.load 0).wp < spp.pgsPerLine := hs.wpIndex_lt g .user
  have hpages : pagesWritten spp ns cmd 0 ≤ 65 := by
    unfold pagesWritten
    split
    · rename_i hop
      exact Nat.le_trans (tally_le _ _) (hcount hop)
    · omega
  refine ⟨fun hop => ?_, hpages, ?_⟩
  · have hc := hcount hop
    have hmul := Nat.mul_le_mul_right spp.pgsPerLine (show 2 ≤ (ns.load 0).lm.freeLineList.length by
      rw [← hs.free_cnt]
      exact hfree)
    simp only [budget, getWp]
    omega
  · have hclosed : (wpIndex spp (ns.load 0).wp + pagesWritten spp ns cmd 0) / spp.pgsPerLine ≤ 1 := by
      rw [Nat.div_le_iff_le_mul (line_pos g)]
      omega
    omega

theorem Spacious.returns {cfg : SsdConfig} (clk : Nat → Nat) (ret : NvmevResult) (k : NsOk spp M ns)
    (g : Geometry spp) (hM : M) (hfits : Fits spp) (hrated : Rated spp) (hone : ns.nrParts = 1)
    (hsec : spp.secsPerPg = 8) (hmdts : cfg.mdts = 6) (hprov : Provisioned spp cpp ns)
    (hsp : Spacious spp cpp ns) (hreq : HostOk cfg ns req) {fuel : Nat} (hfuel : spp.ttPgs < fuel) :
    ∃ o, convProcNvmeIoCmd clk spp cpp fuel ns req ret = .ok o := by
  have hthres := hprov.thres
  have hfree := hsp.free
  obtain ⟨hpages, _, hlines⟩ := k.write_fits g hprov.line (show 2 ≤ _ by omega)
    (fun hop => hreq.pageCount_le hop hsec hmdts)
  refine command_returns clk ret k g hM hfits hrated (fun hop i hi => ?_) hlines hprov.room
    (fun hdis => ?_) hfuel
  · obtain rfl : i = 0 := by omega
    exact hpages hop
  · exact (hdis.mappedBelow hone (fun hop => hreq.endLpn_lt hop hsec) hsp.mapped).card

section Pro

variable {size : Nat}

theorem pro_geometry (d : Derived convSamsung970Pro size 1 spp) (hl : spp.blksPerPl = spp.ttLines) :
    spp.nchs = 8 ∧ spp.lunsPerCh = 8 ∧ spp.blksPerPl = 8192 ∧
      spp.pgsPerLine = 64 * spp.pgsPerBlk ∧ spp.ttPgs = 8192 * spp.pgsPerLine ∧
      spp.pgsPerBlk = 8 * spp.oneshotpgsPerBlk := by
  obtain ⟨_, hlun, hch, htt, hline, _⟩ := d.counts hl
  have hn : spp.nchs = 8 := d.nchs
  have hlu : spp.lunsPerCh = 8 := d.luns
  have hb : spp.blksPerPl = 8192 := d.blks
  have hone := d.oneshot
  have hsz : convSamsung970Pro.oneshotPageSize = 32768 := by decide
  have hblk := d.blk_oneshot
  rw [hsz] at hone
  rw [show spp.pgsPerOneshotpg = 8 by omega] at hblk
  have hpl := d.pl
  rw [hn, hlu] at hline
  rw [hb] at hpl
  rw [hch, hlun, hpl, hn, hlu] at htt
  exact ⟨hn, hlu, hb, hline, by omega, hblk⟩

theorem pro_rated (d : Derived convSamsung970Pro size 1 spp) : Rated spp := by
  refine ⟨?_, ?_, ?_⟩
  · rw [d.maxChXferSize]
    decide
  · rw [d.chBandwidth]
    decide
  · rw [d.pcieBandwidth]
    decide

/-- The pages cover the capacity, unless rounding it up has wrapped and there are none. -/
theorem pro_capacity (d : Derived convSamsung970Pro size 1 spp) (hl : spp.blksPerPl = spp.ttLines)
    (hpos : 0 < spp.ttPgs) (hsize : size < 2^64) : size ≤ spp.ttPgs * 4096 := by
  obtain ⟨_, _, _, hline, htt, hblk⟩ := pro_geometry d hl
  have hone := d.oneshotpgs
  have hdies : convSamsung970Pro.blksPerPln * (convSamsung970Pro.plnsPerLun *
    convSamsung970Pro.lunsPerNandCh * (convSamsung970Pro.nandChannels / 1)) = 524288 := by decide
  have hsz : convSamsung970Pro.oneshotPageSize = 32768 := by decide
  rw [hdies, hsz, Nat.div_one] at hone
  unfold divRoundUp u64 at hone
  omega

variable {mem : Nat → Leftover} {ops : List InternalOp}

def proParams : ConvParams := convInitParams convSamsung970Pro.toSsdConfig

theorem pro_provisioned (d : Derived convSamsung970Pro size 1 spp) (hl : spp.blksPerPl = spp.ttLines)
    (hpos : 0 < spp.ttPgs) (hsize : size < 2^64) (hns : ns.size = convNsSize proParams size) :
    Provisioned spp proParams ns := by
  obtain ⟨_, _, hb, hline, htt, hblk⟩ := pro_geometry d hl
  have hcap := pro_capacity d hl hpos hsize
  have hthres : proParams.gcThresLinesHigh = 8 := rfl
  have hpcent : proParams.pbaPcent = 107 := by decide
  refine ⟨by omega, by omega, ?_⟩
  unfold visiblePages
  rw [hns, hb, hthres, convNsSize, hpcent, u64]
  have hle := Nat.mod_le (size * 100) (2^64)
  generalize size * 100 % 2^64 = bytes at *
  omega

theorem pro_spacious (hr : Reachable clk convSamsung970Pro mem size (HostOk samsung970Pro) spp ns ops)
    (hpos : 0 < spp.ttPgs) (hblank : AllBlank spp mem 1) : Spacious spp proParams ns := by
  have g := hr.geometry hpos
  obtain ⟨ns₀, hfresh⟩ := hr.fresh
  have hb := (pro_geometry hfresh.derived hfresh.lines).2.2.1
  induction hr with
  | init h =>
    have hf := convInitNamespace_ok h
    refine ⟨?_, ?_⟩
    · rw [hf.load 0 hf.parts_pos]
      change 8 < spp.blksPerPl - 2
      omega
    · rw [hf.load 0 hf.parts_pos]
      intro lpn hl hne
      exact absurd (initMaptbl_unmapped (hblank 0 (by omega)) hl) hne
  | command hr hreq h ih =>
    obtain ⟨k, hn, _⟩ := hr.nsOk hpos
    exact ih.command k g hblank hn hfresh.derived.secsPerPg hreq h
  | release hr h ih => exact ⟨ih.free, ih.mapped⟩

/-- On the SAMSUNG_970PRO configuration no command of a well-behaved host runs into a fault or
into an endless GC loop, and the free lines stay above the threshold. -/
theorem pro_commands_return (req : NvmevRequest) (ret : NvmevResult) (hsize : size < 2^64)
    (hr : Reachable clk convSamsung970Pro mem size (HostOk samsung970Pro) spp ns ops)
    (hblank : AllBlank spp mem 1) (hfit : spp.pgsPerBlk ≤ 2^pageBits)
    (hreq : HostOk samsung970Pro ns req) {fuel : Nat} (hfuel : spp.ttPgs < fuel) :
    ∃ o, convProcNvmeIoCmd clk spp proParams fuel ns req ret = .ok o ∧
      proParams.gcThresLinesHigh < (o.ns.load 0).lm.freeLineCnt := by
  obtain ⟨ns₀, hfresh⟩ := hr.fresh
  have d : Derived convSamsung970Pro size 1 spp := hfresh.derived
  obtain ⟨hnchs, hluns, hb, _, _, _⟩ := pro_geometry d hfresh.lines
  rcases Nat.eq_zero_or_pos spp.ttPgs with hz | hpos
  · -- nothing can be read or written, and the GC loop is not entered
    obtain ⟨_, hp, hcsi, hall⟩ := hr.frozen hz
    have hcalm : proParams.gcThresLinesHigh < (ns.load 0).lm.freeLineCnt := by
      rw [(hall 0 hp).freeLineCnt]
      change 8 < spp.blksPerPl - 2
      omega
    obtain ⟨r, hd, hidle⟩ := convDispatch_no_pages clk hz hp req ret
    unfold convProcNvmeIoCmd
    rw [nvmevAssert_true hcsi, ok_bind, hd, ok_bind]
    cases r with
    | none => exact ⟨_, rfl, hcalm⟩
    | some p =>
      obtain ⟨ns₁, ret', ops'⟩ := p
      have hfree₁ := ((hidle ns₁ ret' ops' rfl).1.slept 0).freeLineCnt
      dsimp only
      rw [gcWhileHigh_calm (by omega), ok_bind]
      refine ⟨_, rfl, ?_⟩
      dsimp only
      rw [load_store_same]
      omega
  · have g := hr.geometry hpos
    obtain ⟨k, hn, hns⟩ := hr.nsOk hpos
    have hfits : Fits spp := ⟨by rw [hnchs]; decide, by rw [hluns]; decide, hfit⟩
    have hsp := pro_spacious hr hpos hblank
    obtain ⟨o, ho⟩ := hsp.returns clk ret k g hblank hfits (pro_rated d) hn d.secsPerPg rfl
      (pro_provisioned d hfresh.lines hpos hsize hns) hreq hfuel
    exact ⟨o, ho, (hsp.command k g hblank hn d.secsPerPg hreq ho).free⟩

theorem pro_ssd_64GiB : ∃ spp, ssdInitParams convSamsung970Pro.toSsdConfig (2^36)
    convSamsung970Pro.ssdPartitions = .ok spp ∧ spp.blksPerPl = spp.ttLines ∧ 2 ≤ spp.blksPerPl ∧
      spp.ttPgs = 2^24 ∧ spp.pgsPerBlk = 32 ∧ spp.secsPerPg = 8 ∧ spp.writeBufferSize = 4194304 :=
  ⟨_, rfl, rfl, by decide, rfl, rfl, rfl, rfl⟩

theorem pro_commands_return_64GiB : ∃ spp ns o, Reachable (fun _ => 0) convSamsung970Pro
      (fun _ => zeroLeftover) (2^36) (HostOk samsung970Pro) spp ns [] ∧
    convProcNvmeIoCmd (fun _ => 0) spp proParams (spp.ttPgs + 1) ns (hostWrite 0 512) ⟨0, 0⟩ = .ok o ∧
      proParams.gcThresLinesHigh < (o.ns.load 0).lm.freeLineCnt := by
  obtain ⟨spp, hspp, hl, h2, htt, hpg, _⟩ := pro_ssd_64GiB
  have hr : Reachable (fun _ => 0) convSamsung970Pro (fun _ => zeroLeftover) (2^36)
      (HostOk samsung970Pro) spp _ [] :=
    Reachable.init (convInitNamespace_eq hspp hl h2 (fun _ => zeroLeftover))
  obtain ⟨o, ho, hfree⟩ := pro_commands_return (hostWrite 0 512) ⟨0, 0⟩ (by decide) hr
    (fun _ _ lpn hlow hlt => by omega) (by rw [hpg]; decide)
    ⟨fun _ => show 512 ≤ convNsSize proParams (2^36) / lbaSize by decide, fun _ => by decide⟩
    (Nat.lt_succ_self _)
  exact ⟨spp, _, o, hr, ho, hfree⟩

/-- At 16 TiB a first write to page `2^31` finds a stale address in a table that was zero before. -/
theorem pro_write_fails_16TiB : ∃ spp ns, Reachable (fun _ => 0) convSamsung970Pro
      (fun _ => zeroLeftover) (2^44) (HostOk samsung970Pro) spp ns [] ∧
    HostOk samsung970Pro ns (hostWrite (2^34) 8) ∧
    ∀ fuel, convProcNvmeIoCmd (fun _ => 0) spp proParams fuel ns (hostWrite (2^34) 8) ⟨0, 0⟩ =
      .error .assertion := by
  refine ⟨_, _, Reachable.init (convInitNamespace_eq rfl rfl (by decide) (fun _ => zeroLeftover)),
    ⟨fun _ => by decide, fun _ => by decide⟩, ?_⟩
  intro fuel
  rfl

end Pro

end NVMeVirt
