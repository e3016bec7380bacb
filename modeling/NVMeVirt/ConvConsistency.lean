import NVMeVirt.ConvRun

/-!
# What holds between commands

Three properties of every partition in every reachable state, in the terms of the source:
`maptbl` and `rmap` invert each other, every line has one place, and the counters are the
census of the page states. A partition is `ns.load i`: `conv_ftls[i]` with the link and the
clock that it shares with the others.
-/

namespace NVMeVirt
set_option autoImplicit false
open Outcome Census TwoWay

/-- The host may send any command. -/
def anyRequest (_ : ConvNs) (_ : NvmevRequest) : Prop := True

def PQueue.elems {α : Type} (q : PQueue α) : List α := (List.range' 1 (q.size - 1)).map q.d

inductive Place where
  | freeLineList
  | fullLineList
  | victimLinePq
  | wp
  | gcWp
  deriving Repr, DecidableEq

def LineAt (s : ConvFtl) (x : Nat) : Place → Prop
  | .freeLineList => x ∈ s.lm.freeLineList
  | .fullLineList => x ∈ s.lm.fullLineList
  | .victimLinePq => x ∈ s.lm.victimLinePq.elems
  | .wp => s.wp.curline = x
  | .gcWp => s.gcWp.curline = x

/-- The state of the page at `ppa`, as `get_pg` reads it. -/
def pageStatus (s : ConvFtl) (ppa : Ppa) : PgStatus := ((s.ssd.blk ppa.addr).pg ppa.pg).status

structure LinesFiled (spp : SsdParams) (s : ConvFtl) : Prop where
  one_place : ∀ x < spp.ttLines, ∃! k, LineAt s x k
  lines_only : ∀ x k, LineAt s x k → x < spp.ttLines
  no_repeat : s.lm.freeLineList.Nodup ∧ s.lm.fullLineList.Nodup ∧ s.lm.victimLinePq.elems.Nodup
  free_cnt : s.lm.freeLineCnt = s.lm.freeLineList.length
  full_cnt : s.lm.fullLineCnt = s.lm.fullLineList.length
  victim_cnt : s.lm.victimLineCnt = s.lm.victimLinePq.elems.length
  full_line : ∀ x ∈ s.lm.fullLineList, (s.lm.lines x).vpc = spp.pgsPerLine
  victim_line : ∀ x ∈ s.lm.victimLinePq.elems,
    (s.lm.lines x).vpc + (s.lm.lines x).ipc = spp.pgsPerLine ∧ 0 < (s.lm.lines x).ipc
  free_line : ∀ x ∈ s.lm.freeLineList, (s.lm.lines x).vpc = 0 ∧ (s.lm.lines x).ipc = 0 ∧
    ∀ ppa, validPpa spp ppa → ppa.blk = x → pageStatus s ppa = .free

structure CountersExact (spp : SsdParams) (s : ConvFtl) : Prop where
  block : ∀ c < spp.nchs, ∀ l < spp.lunsPerCh, ∀ pl < spp.plsPerLun, ∀ x < spp.blksPerPl,
    BlockCensus spp (s.ssd.blk ⟨c, l, pl, x⟩)
  line : ∀ x < spp.ttLines,
    (s.lm.lines x).vpc = ∑ c ∈ Finset.range spp.nchs, ∑ l ∈ Finset.range spp.lunsPerCh,
      ∑ pl ∈ Finset.range spp.plsPerLun, (s.ssd.blk ⟨c, l, pl, x⟩).vpc ∧
    (s.lm.lines x).ipc = ∑ c ∈ Finset.range spp.nchs, ∑ l ∈ Finset.range spp.lunsPerCh,
      ∑ pl ∈ Finset.range spp.plsPerLun, (s.ssd.blk ⟨c, l, pl, x⟩).ipc
  open_line : ∀ io ppa, validPpa spp ppa → ppa.blk = (getWp s io).curline →
    (pageStatus s ppa = .free ↔ wpIndex spp (getWp s io) ≤ allocIndex spp ppa.ch ppa.lun ppa.pg)
  closed_line : ∀ ppa, validPpa spp ppa →
    ppa.blk ∈ s.lm.fullLineList ∨ ppa.blk ∈ s.lm.victimLinePq.elems → pageStatus s ppa ≠ .free

def physicalPages (spp : SsdParams) : Finset Ppa :=
  (Finset.range spp.nchs ×ˢ Finset.range spp.lunsPerCh ×ˢ Finset.range spp.plsPerLun ×ˢ
    Finset.range spp.blksPerPl ×ˢ Finset.range spp.pgsPerBlk).image
    (fun a => ⟨a.2.2.2.2, a.2.2.2.1, a.2.2.1, a.2.1, a.1, 0⟩)

structure TablesInverse (spp : SsdParams) (s : ConvFtl) : Prop where
  forward : ∀ lpn ppa, getMaptblEnt spp s lpn = .ok ppa → ppa ≠ unmappedPpa →
    validPpa spp ppa ∧ pageStatus s ppa = .valid ∧ getRmapEnt spp s ppa = .ok lpn
  backward : ∀ ppa ∈ physicalPages spp, pageStatus s ppa = .valid →
    ∃ lpn, getRmapEnt spp s ppa = .ok lpn ∧ lpn < spp.ttPgs ∧ getMaptblEnt spp s lpn = .ok ppa
  unshared : ∀ lpn lpn' ppa, getMaptblEnt spp s lpn = .ok ppa → getMaptblEnt spp s lpn' = .ok ppa →
    ppa ≠ unmappedPpa → lpn = lpn'
  count : ((Finset.range spp.ttPgs).filter (fun lpn => s.maptbl lpn ≠ unmappedPpa)).card =
    ((physicalPages spp).filter (fun ppa => pageStatus s ppa = .valid)).card

variable {spp : SsdParams} {s : ConvFtl} {h : Nat → Home} {fill : Nat → Nat}

def Place.home : Place → Home
  | .freeLineList => .free
  | .fullLineList => .full
  | .victimLinePq => .victim
  | .wp => .user
  | .gcWp => .gc

theorem Place.home_inj {k k' : Place} (he : k.home = k'.home) : k = k' := by
  cases k <;> cases k' <;> first | rfl | cases he

theorem Place.of_home {k : Home} (hk : k ≠ .held) : ∃ p : Place, p.home = k := by
  cases k with
  | free => exact ⟨.freeLineList, rfl⟩
  | full => exact ⟨.fullLineList, rfl⟩
  | victim => exact ⟨.victimLinePq, rfl⟩
  | user => exact ⟨.wp, rfl⟩
  | gc => exact ⟨.gcWp, rfl⟩
  | held => exact absurd rfl hk

theorem mem_elems {α : Type} {q : PQueue α} {x : α} :
    x ∈ q.elems ↔ ∃ j, 1 ≤ j ∧ j < q.size ∧ q.d j = x := by
  unfold PQueue.elems
  rw [List.mem_map]
  constructor
  · rintro ⟨j, hj, he⟩
    rw [List.mem_range'_1] at hj
    exact ⟨j, hj.1, by omega, he⟩
  · rintro ⟨j, hj, hj', he⟩
    exact ⟨j, List.mem_range'_1.mpr ⟨hj, by omega⟩, he⟩

theorem Shelved.mem_victims (a : Shelved spp s.lm h) {x : Nat} :
    x ∈ s.lm.victimLinePq.elems ↔ x < spp.blksPerPl ∧ h x = .victim := by
  rw [mem_elems, ← a.pq.mem]

theorem Shelved.victims_nodup (a : Shelved spp s.lm h) : s.lm.victimLinePq.elems.Nodup := by
  unfold PQueue.elems
  refine List.Nodup.map_on ?_ List.nodup_range'
  intro i hi j hj he
  rw [List.mem_range'_1] at hi hj
  exact a.pq.inj hi.1 (by omega) hj.1 (by omega) he

theorem lineAt_iff (a : Shelved spp s.lm h)
    (hcur : ∀ io x, (getWp s io).curline = x ↔ x < spp.blksPerPl ∧ h x = io.home) (x : Nat) (k : Place) :
    LineAt s x k ↔ x < spp.blksPerPl ∧ h x = k.home := by
  cases k with
  | freeLineList => exact a.free_mem x
  | fullLineList => exact a.full_mem x
  | victimLinePq => exact a.mem_victims
  | wp => exact hcur .user x
  | gcWp => exact hcur .gc x

theorem linesFiled_of_homes (hl : spp.ttLines = spp.blksPerPl) (a : Shelved spp s.lm h)
    (hcur : ∀ io x, (getWp s io).curline = x ↔ x < spp.blksPerPl ∧ h x = io.home)
    (hheld : ∀ x, h x ≠ .held)
    (hfull : ∀ x < spp.blksPerPl, h x = .full → (s.lm.lines x).vpc = spp.pgsPerLine)
    (hvictim : ∀ x < spp.blksPerPl, h x = .victim →
      (s.lm.lines x).vpc + (s.lm.lines x).ipc = spp.pgsPerLine ∧ 0 < (s.lm.lines x).ipc)
    (hfree : ∀ x < spp.blksPerPl, h x = .free → (s.lm.lines x).vpc = 0 ∧ (s.lm.lines x).ipc = 0 ∧
      ∀ ppa, validPpa spp ppa → ppa.blk = x → pageStatus s ppa = .free) :
    LinesFiled spp s := by
  have hat := lineAt_iff a hcur
  refine ⟨?_, ?_, ⟨a.free_nodup, a.full_nodup, a.victims_nodup⟩, a.free_cnt, a.full_cnt, ?_, ?_, ?_, ?_⟩
  · intro x hx
    rw [hl] at hx
    obtain ⟨k, hk⟩ := Place.of_home (hheld x)
    refine ⟨k, (hat x k).mpr ⟨hx, hk.symm⟩, ?_⟩
    intro k' hk'
    exact Place.home_inj (((hat x k').mp hk').2.symm.trans hk.symm)
  · intro x k hk
    rw [hl]
    exact ((hat x k).mp hk).1
  · have hc := a.victim_cnt
    unfold PQueue.elems
    rw [List.length_map, List.length_range']
    omega
  · intro x hx
    obtain ⟨hlt, hk⟩ := (a.full_mem x).mp hx
    exact hfull x hlt hk
  · intro x hx
    obtain ⟨hlt, hk⟩ := a.mem_victims.mp hx
    exact hvictim x hlt hk
  · intro x hx
    obtain ⟨hlt, hk⟩ := (a.free_mem x).mp hx
    exact hfree x hlt hk

/-- A page address inside the partition, with its page state in the terms of the invariant. -/
theorem pageStatus_eq (g : Geometry spp) {ppa : Ppa} (hv : validPpa spp ppa) :
    InRange spp ppa.ch ppa.lun ppa.blk ppa.pg ∧
      pageStatus s ppa = statusAt s ppa.ch ppa.lun ppa.blk ppa.pg := by
  obtain ⟨hr, hpl⟩ := validPpa_inRange g hv
  refine ⟨hr, ?_⟩
  unfold pageStatus Ppa.addr
  rw [hpl]
  rfl

theorem LineContents.counters_zero {x : Nat} (k : LineContents spp s x 0) :
    (s.lm.lines x).vpc = 0 ∧ (s.lm.lines x).ipc = 0 := by
  have hzero : ∀ c < spp.nchs, ∀ l < spp.lunsPerCh, ∀ st, st ≠ .free →
      tally spp.pgsPerBlk (hasStatus (blockAt s c l x) st) = 0 := by
    intro c hc l hl st hst
    apply tally_eq_zero.mpr
    intro p hp
    rw [hasStatus_false]
    intro he
    exact hst (he.symm.trans ((k.free_iff c hc l hl p hp).mpr (Nat.zero_le _)))
  constructor
  · rw [k.vpc, grid_congr (g := fun _ _ => 0), grid_const, Nat.mul_zero]
    intro c hc l hl
    rw [(k.census c hc l hl).vpc, hzero c hc l hl _ (by decide)]
  · rw [k.ipc, grid_congr (g := fun _ _ => 0), grid_const, Nat.mul_zero]
    intro c hc l hl
    rw [(k.census c hc l hl).ipc, hzero c hc l hl _ (by decide)]

theorem Sound.linesFiled (hs : Sound spp s none) (g : Geometry spp) : LinesFiled spp s := by
  obtain ⟨h, fill, i, _, hheld⟩ := hs
  have hnone : ∀ x, h x ≠ .held := fun x he => nomatch (hheld x).mp he
  refine linesFiled_of_homes g.lines_eq i.shelved i.cur hnone i.full_vpc ?_ ?_
  · intro x hx hk
    have hc := i.contents x hx (hnone x)
    rw [i.fill_closed x hx (Or.inr hk)] at hc
    exact ⟨hc.closed g, i.victim_ipc x hx hk⟩
  · intro x hx hk
    have hc := i.contents x hx (hnone x)
    rw [i.fill_free x hx hk] at hc
    refine ⟨hc.counters_zero.1, hc.counters_zero.2, ?_⟩
    rintro ppa hv rfl
    obtain ⟨hr, he⟩ := pageStatus_eq (s := s) g hv
    rw [he]
    exact (hc.free_iff _ hr.ch _ hr.lun _ hr.pg).mpr (Nat.zero_le _)

theorem Sound.countersExact (hs : Sound spp s none) (g : Geometry spp) : CountersExact spp s := by
  obtain ⟨h, fill, i, hset, hheld⟩ := hs
  have hnone : ∀ x, h x ≠ .held := fun x he => nomatch (hheld x).mp he
  refine ⟨?_, ?_, ?_, ?_⟩
  · intro c hc l hl pl hpl x hx
    rw [g.pls_eq] at hpl
    obtain rfl : pl = 0 := by omega
    exact (i.contents x hx (hnone x)).census c hc l hl
  · intro x hx
    rw [g.lines_eq] at hx
    rw [g.pls_eq]
    simp only [Finset.sum_range_one]
    exact ⟨(i.contents x hx (hnone x)).vpc, (i.contents x hx (hnone x)).ipc⟩
  · intro io ppa hv hblk
    obtain ⟨hr, he⟩ := pageStatus_eq (s := s) g hv
    have hc := (i.contents _ hr.blk (hnone _)).free_iff _ hr.ch _ hr.lun _ hr.pg
    have hfill := hset io
    unfold Settled at hfill
    rw [he, ← hfill, ← hblk]
    exact hc
  · intro ppa hv hmem hfree
    obtain ⟨hr, he⟩ := pageStatus_eq (s := s) g hv
    have hk : h ppa.blk = .full ∨ h ppa.blk = .victim := by
      rcases hmem with hm | hm
      · exact Or.inl ((i.shelved.full_mem _).mp hm).2
      · exact Or.inr (i.shelved.mem_victims.mp hm).2
    have hc := (i.contents _ hr.blk (hnone _)).free_iff _ hr.ch _ hr.lun _ hr.pg
    rw [i.fill_closed _ hr.blk hk] at hc
    have hlt := allocIndex_lt g.wordlines hr.ch hr.lun hr.pg
    have hle := hc.mp (he.symm.trans hfree)
    omega

theorem mem_physicalPages {ppa : Ppa} : ppa ∈ physicalPages spp ↔ validPpa spp ppa ∧ ppa.rsv = 0 := by
  unfold physicalPages validPpa
  rw [Finset.mem_image]
  constructor
  · rintro ⟨⟨c, l, pl, x, p⟩, hmem, rfl⟩
    simp only [Finset.mem_product, Finset.mem_range] at hmem
    exact ⟨hmem, rfl⟩
  · rintro ⟨hv, hrsv⟩
    refine ⟨(ppa.ch, ppa.lun, ppa.pl, ppa.blk, ppa.pg), ?_, ?_⟩
    · simpa only [Finset.mem_product, Finset.mem_range] using hv
    · rw [← hrsv]

theorem validPage_iff (g : Geometry spp) {ppa : Ppa} :
    ValidPage spp s ppa ↔ ppa ∈ physicalPages spp ∧ pageStatus s ppa = .valid := by
  rw [mem_physicalPages]
  constructor
  · rintro ⟨hp, hst⟩
    have hv : validPpa spp ppa := by
      rw [hp.eq_pageAt]
      exact hp.range.validPpa g
    exact ⟨⟨hv, hp.rsv⟩, (pageStatus_eq g hv).2.trans hst⟩
  · rintro ⟨⟨hv, hrsv⟩, hst⟩
    obtain ⟨hr, he⟩ := pageStatus_eq (s := s) g hv
    exact ⟨⟨hr, (validPpa_inRange g hv).2, hrsv⟩, he.symm.trans hst⟩

theorem getRmapEnt_page (g : Geometry spp) {ppa : Ppa} (hp : Page spp ppa) :
    getRmapEnt spp s ppa = .ok (s.rmap (pgidx spp ppa)) := by
  unfold getRmapEnt pgidx
  rw [hp.eq_pageAt, ppa2pgidx_pageAt g hp.range]
  rfl

theorem getMaptblEnt_ok {lpn : Nat} {ppa : Ppa} :
    getMaptblEnt spp s lpn = .ok ppa ↔ lpn < spp.ttPgs ∧ s.maptbl lpn = ppa := by
  unfold getMaptblEnt
  by_cases hl : lpn < spp.ttPgs
  · simp [hl]
  · simp [hl]

theorem MapOk.tablesInverse (m : MapOk spp s (ValidPage spp s)) (g : Geometry spp) :
    TablesInverse spp s := by
  refine ⟨?_, ?_, ?_, ?_⟩
  · intro lpn ppa hget hne
    obtain ⟨hl, rfl⟩ := getMaptblEnt_ok.mp hget
    obtain ⟨hva, hback⟩ := m.forward lpn hl hne
    obtain ⟨hmem, hst⟩ := (validPage_iff g).mp hva
    refine ⟨(mem_physicalPages.mp hmem).1, hst, ?_⟩
    rw [getRmapEnt_page g hva.1]
    exact congrArg Except.ok hback
  · intro ppa hmem hst
    have hva := (validPage_iff g).mpr ⟨hmem, hst⟩
    obtain ⟨hl, hfwd⟩ := m.backward ppa hva
    exact ⟨_, getRmapEnt_page g hva.1, hl, getMaptblEnt_ok.mpr ⟨hl, hfwd⟩⟩
  · intro lpn lpn' ppa hget hget' hne
    obtain ⟨hl, rfl⟩ := getMaptblEnt_ok.mp hget
    obtain ⟨hl', he⟩ := getMaptblEnt_ok.mp hget'
    exact m.inj hl hl' hne he.symm
  · refine m.card_eq (fun hva => hva.1.mapped rfl) ?_ ?_
    · intro lpn
      rw [Finset.mem_filter, Finset.mem_range]
    · intro ppa
      rw [Finset.mem_filter, validPage_iff g]

section Empty

variable {mem : Leftover}

theorem not_validPpa_of_empty (hz : spp.pgsPerBlk = 0) {ppa : Ppa} : ¬ validPpa spp ppa := by
  rintro ⟨_, _, _, _, hpg⟩
  omega

theorem Slept.linesFiled (hs : Slept (freshFtl spp mem (ssdInit spp)) s) (hz : spp.pgsPerBlk = 0)
    (hl : spp.blksPerPl = spp.ttLines) (h2 : 2 ≤ spp.blksPerPl) : LinesFiled spp s := by
  obtain ⟨ssd, rfl, _⟩ := hs
  refine linesFiled_of_homes hl.symm (freshFtl_shelved hl h2) (freshFtl_cur mem ssd h2)
    (fun x => (freshHome_closed x).2.2) ?_ ?_ ?_
  · exact fun x _ hk => absurd hk (freshHome_closed x).1
  · exact fun x _ hk => absurd hk (freshHome_closed x).2.1
  · exact fun x _ _ => ⟨rfl, rfl, fun ppa hv _ => absurd hv (not_validPpa_of_empty hz)⟩

theorem Slept.countersExact (hs : Slept (freshFtl spp mem (ssdInit spp)) s) (hz : spp.pgsPerBlk = 0) :
    CountersExact spp s := by
  obtain ⟨ssd, rfl, hblk⟩ := hs
  have hb : ∀ a, ssd.blk a = ssdInitNandBlk spp := fun a => congrFun hblk a
  refine ⟨?_, ?_, fun _ _ hv _ => absurd hv (not_validPpa_of_empty hz),
    fun _ hv _ => absurd hv (not_validPpa_of_empty hz)⟩
  · intro c _ l _ pl _ x _
    change BlockCensus spp (ssd.blk _)
    rw [hb]
    exact ⟨by rw [hz]; rfl, by rw [hz]; rfl⟩
  · intro x _
    change 0 = ∑ c ∈ _, ∑ l ∈ _, ∑ pl ∈ _, (ssd.blk _).vpc ∧ 0 = ∑ c ∈ _, ∑ l ∈ _, ∑ pl ∈ _, (ssd.blk _).ipc
    simp [hb, ssdInitNandBlk]

theorem tablesInverse_of_empty (hz : spp.ttPgs = 0) (hb : spp.pgsPerBlk = 0) : TablesInverse spp s := by
  have hget : ∀ lpn ppa, ¬ getMaptblEnt spp s lpn = .ok ppa := by
    intro lpn ppa hc
    have hl := (getMaptblEnt_ok.mp hc).1
    omega
  have hnone : physicalPages spp = ∅ := by
    apply Finset.eq_empty_of_forall_notMem
    intro ppa hmem
    exact not_validPpa_of_empty hb (mem_physicalPages.mp hmem).1
  refine ⟨fun lpn ppa hc => absurd hc (hget lpn ppa), ?_, fun lpn _ ppa hc => absurd hc (hget lpn ppa), ?_⟩
  · intro ppa hmem
    rw [hnone] at hmem
    exact absurd hmem (Finset.notMem_empty _)
  · rw [hz, hnone]
    rfl

end Empty

section Results

variable {clk : Nat → Nat} {cfg : ConvConfig} {mem : Nat → Leftover} {size : Nat}
  {host : ConvNs → NvmevRequest → Prop} {ns : ConvNs} {ops : List InternalOp}

/-- Every line has exactly one place, and its counters fit the place. -/
theorem reachable_linesFiled (hr : Reachable clk cfg mem size host spp ns ops) {i : Nat}
    (hi : i < ns.nrParts) : LinesFiled spp (ns.load i) := by
  rcases Nat.eq_zero_or_pos spp.ttPgs with hz | hpos
  · obtain ⟨ns₀, hf⟩ := hr.fresh
    obtain ⟨_, _, _, hall⟩ := hr.frozen hz
    exact (hall i hi).linesFiled (hf.derived.no_pages hf.lines hz).1 hf.lines hf.two_le
  · exact ((hr.nsOk hpos).1.sound i hi).linesFiled (hr.geometry hpos)

/-- The counters of blocks and lines are the census of the page states. -/
theorem reachable_countersExact (hr : Reachable clk cfg mem size host spp ns ops) {i : Nat}
    (hi : i < ns.nrParts) : CountersExact spp (ns.load i) := by
  rcases Nat.eq_zero_or_pos spp.ttPgs with hz | hpos
  · obtain ⟨ns₀, hf⟩ := hr.fresh
    obtain ⟨_, _, _, hall⟩ := hr.frozen hz
    exact (hall i hi).countersExact (hf.derived.no_pages hf.lines hz).1
  · exact ((hr.nsOk hpos).1.sound i hi).countersExact (hr.geometry hpos)

theorem tablesInverse_of_blank (hr : Reachable clk cfg mem size host spp ns ops)
    (hm : AllBlank spp mem cfg.ssdPartitions) {i : Nat} (hi : i < ns.nrParts) :
    TablesInverse spp (ns.load i) := by
  rcases Nat.eq_zero_or_pos spp.ttPgs with hz | hpos
  · obtain ⟨ns₀, hf⟩ := hr.fresh
    exact tablesInverse_of_empty hz (hf.derived.no_pages hf.lines hz).1
  · exact ((hr.nsOk hpos).1.map hm i hi).tablesInverse (hr.geometry hpos)

/-- A leftover entry that is not unmapped points to a page that holds no data. -/
theorem blank_of_tablesInverse (hf : Fresh cfg mem size spp ns)
    (hall : ∀ i < ns.nrParts, TablesInverse spp (ns.load i)) : AllBlank spp mem cfg.ssdPartitions := by
  intro i hi lpn hlow hlt
  by_contra hne
  rw [← hf.nrParts] at hi
  have hinv := hall i hi
  rw [hf.load i hi] at hinv
  have hent : initMaptbl spp (mem i) lpn = (mem i).maptbl lpn := by
    unfold initMaptbl
    rw [if_neg (by omega)]
  obtain ⟨_, hst, _⟩ := hinv.forward lpn _ (getMaptblEnt_ok.mpr ⟨hlt, hent⟩) hne
  exact nomatch hst

/-- The tables invert each other in every reachable state, exactly when the entries that
`init_maptbl` leaves alone hold no address. -/
theorem tablesInverse_iff {ns₀ : ConvNs} (clk : Nat → Nat)
    (h : convInitNamespace cfg.toSsdConfig mem size = .ok (spp, ns₀)) :
    (∀ ns ops, Reachable clk cfg mem size anyRequest spp ns ops →
      ∀ i < ns.nrParts, TablesInverse spp (ns.load i)) ↔ AllBlank spp mem cfg.ssdPartitions := by
  constructor
  · intro hall
    exact blank_of_tablesInverse (convInitNamespace_ok h) (hall ns₀ [] (Reachable.init h))
  · intro hm ns ops hr i hi
    exact tablesInverse_of_blank hr hm hi

end Results

/-- Memory that was zero before. -/
def zeroLeftover : Leftover := ⟨fun _ => ⟨0, 0, 0, 0, 0, 0⟩, fun _ => 0, fun _ => 0⟩

def hostWrite (slba nlb : Nat) : NvmevRequest := ⟨⟨.write, slba, nlb - 1, false⟩, 1, 0⟩

def hostRead (slba nlb : Nat) : NvmevRequest := ⟨⟨.read, slba, nlb - 1, false⟩, 1, 0⟩

/-- Two partitions of one die each, with 11 lines of one page. -/
def twoPartitions : ConvConfig := { samsung970Pro with
  ssdPartitions := 2
  nandChannels := 2
  lunsPerNandCh := 1
  flashPageSize := kb 4
  oneshotPageSize := kb 4
  blksPerPln := 11
  globalWbSize := 2 * 1 * kb 4 * 2
  blks_pos := by decide
  blks_le := by decide }

theorem twoPartitions_write (host : ConvNs → NvmevRequest → Prop) : ∃ spp ns o,
    Reachable (fun _ => 0) twoPartitions (fun _ => zeroLeftover) 90112 host spp ns [] ∧
    ns.size = 84216 ∧ ns.nrParts = 2 ∧
    convProcNvmeIoCmd (fun _ => 0) spp (convInitParams twoPartitions.toSsdConfig) 0 ns (hostWrite 8 8)
      ⟨0, 0⟩ = .ok o ∧
    o.accepted = true ∧ o.ns.nrParts = 2 ∧ (o.ns.load 1).lm.freeLineCnt = 8 :=
  ⟨_, _, _, Reachable.init rfl, rfl, rfl, rfl, rfl, rfl, rfl⟩

theorem linesFiled_twoPartitions : ∃ spp ns ops, Reachable (fun _ => 0) twoPartitions
    (fun _ => zeroLeftover) 90112 anyRequest spp ns ops ∧ LinesFiled spp (ns.load 1) := by
  obtain ⟨spp, ns, o, hr, _, _, h, _, hn, _⟩ := twoPartitions_write anyRequest
  have hr' := Reachable.command hr trivial h
  exact ⟨spp, o.ns, _, hr', reachable_linesFiled hr' (by omega)⟩

theorem countersExact_twoPartitions : ∃ spp ns ops, Reachable (fun _ => 0) twoPartitions
    (fun _ => zeroLeftover) 90112 anyRequest spp ns ops ∧ CountersExact spp (ns.load 1) := by
  obtain ⟨spp, ns, o, hr, _, _, h, _, hn, _⟩ := twoPartitions_write anyRequest
  have hr' := Reachable.command hr trivial h
  exact ⟨spp, o.ns, _, hr', reachable_countersExact hr' (by omega)⟩

/-- The SAMSUNG_970PRO configuration at a capacity of 16 TiB has `2^32` pages. -/
theorem pro_params_16TiB : ∃ spp, ssdInitParams convSamsung970Pro.toSsdConfig (2^44)
      convSamsung970Pro.ssdPartitions = .ok spp ∧
    spp.blksPerPl = spp.ttLines ∧ 2 ≤ spp.blksPerPl ∧ spp.ttPgs = 2^32 :=
  ⟨_, rfl, rfl, by decide, rfl⟩

/-- On the second half of a table that was zero before, the tables start out of step. -/
theorem tablesInverse_fails_16TiB : ∃ spp ns, Reachable (fun _ => 0) convSamsung970Pro
    (fun _ => zeroLeftover) (2^44) anyRequest spp ns [] ∧ 0 < ns.nrParts ∧
    ¬ TablesInverse spp (ns.load 0) := by
  obtain ⟨spp, hspp, hl, h2, htt⟩ := pro_params_16TiB
  have hinit := convInitNamespace_eq hspp hl h2 (fun _ => zeroLeftover)
  have hf := convInitNamespace_ok hinit
  refine ⟨spp, _, Reachable.init hinit, hf.parts_pos, ?_⟩
  intro hinv
  have hblank := blank_of_tablesInverse hf (by
    intro i hi
    obtain rfl : i = 0 := Nat.lt_one_iff.mp hi
    exact hinv)
  have hz := hblank 0 (by decide) (2^31) (Nat.le_refl _) (by rw [htt]; decide)
  exact absurd hz (by decide)

theorem tablesInverse_iff_16TiB : ∃ spp ns₀, convInitNamespace convSamsung970Pro.toSsdConfig
      (fun _ => zeroLeftover) (2^44) = .ok (spp, ns₀) ∧
    ((∀ ns ops, Reachable (fun _ => 0) convSamsung970Pro (fun _ => zeroLeftover) (2^44) anyRequest spp ns ops →
      ∀ i < ns.nrParts, TablesInverse spp (ns.load i)) ↔
      AllBlank spp (fun _ => zeroLeftover) convSamsung970Pro.ssdPartitions) := by
  obtain ⟨spp, hspp, hl, h2, _⟩ := pro_params_16TiB
  have hinit := convInitNamespace_eq hspp hl h2 (fun _ => zeroLeftover)
  exact ⟨spp, _, hinit, tablesInverse_iff (fun _ => 0) hinit⟩

end NVMeVirt
