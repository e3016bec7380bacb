import NVMeVirt.ConvCommands

/-!
# Initialisation

What `ssd_init_params` and `conv_init_ftl` produce, and that it is consistent.
-/

namespace NVMeVirt
set_option autoImplicit false
open Outcome Census PQueue TwoWay

/-- A configuration of the conventional FTL gives the number of blocks, which fits `BLK_BITS`. -/
structure ConvConfig extends SsdConfig where
  blks_pos : 0 < blksPerPln
  blks_le : blksPerPln ≤ 2^blkBits

def convSamsung970Pro : ConvConfig := { samsung970Pro with
  blks_pos := by decide
  blks_le := by decide }

structure Derived (cfg : ConvConfig) (size n : Nat) (spp : SsdParams) : Prop where
  parts_pos : 0 < n
  secsPerPg : spp.secsPerPg = 8
  pgsz : spp.pgsz = 4096
  nchs : spp.nchs = cfg.nandChannels / n
  luns : spp.lunsPerCh = cfg.lunsPerNandCh
  pls : spp.plsPerLun = cfg.plnsPerLun
  blks : spp.blksPerPl = cfg.blksPerPln
  dies_pos : 0 < cfg.plnsPerLun * cfg.lunsPerNandCh * (cfg.nandChannels / n)
  flash_pos : 0 < spp.pgsPerFlashpg
  oneshot_pos : 0 < spp.pgsPerOneshotpg
  oneshotpgs : spp.oneshotpgsPerBlk = divRoundUp (divRoundUp (size / n)
    (cfg.blksPerPln * (cfg.plnsPerLun * cfg.lunsPerNandCh * (cfg.nandChannels / n)))) cfg.oneshotPageSize
  oneshot : spp.pgsPerOneshotpg * 4096 = cfg.oneshotPageSize
  blk_oneshot : spp.pgsPerBlk = spp.pgsPerOneshotpg * spp.oneshotpgsPerBlk
  blk_flash : spp.pgsPerBlk = spp.pgsPerFlashpg * spp.flashpgsPerBlk
  pl : spp.pgsPerPl = spp.pgsPerBlk * spp.blksPerPl
  pl_lt : spp.pgsPerPl < 2^31
  lun : spp.pgsPerLun = u64 (spp.pgsPerPl * spp.plsPerLun)
  ch : spp.pgsPerCh = u64 (spp.pgsPerLun * spp.lunsPerCh)
  tt : spp.ttPgs = u64 (spp.pgsPerCh * spp.nchs)
  luns_lt : spp.lunsPerCh * spp.nchs < 2^31
  line : spp.pgsPerLine = u64 (spp.lunsPerCh * spp.nchs * spp.pgsPerBlk)
  lines : spp.ttLines = spp.blksPerPl * spp.plsPerLun
  maxChXferSize : spp.maxChXferSize = cfg.maxChXferSize
  chBandwidth : spp.chBandwidth = cfg.nandChannelBandwidth
  pcieBandwidth : spp.pcieBandwidth = cfg.pcieBandwidth
  writeBufferSize : spp.writeBufferSize = u64 cfg.globalWbSize

theorem blksAndSize_ok {cfg : ConvConfig} {capacity dies : Nat} {r : Nat × Nat}
    (h : blksAndSize cfg.toSsdConfig capacity dies = .ok r) :
    0 < dies ∧ r = (cfg.blksPerPln, divRoundUp capacity (cfg.blksPerPln * dies)) := by
  unfold blksAndSize at h
  rw [if_pos cfg.blks_pos] at h
  obtain ⟨_, h⟩ := asInt_bind_ok.mp h
  obtain ⟨hd, h⟩ := divisor_bind_ok.mp h
  cases h
  exact ⟨Nat.pos_of_mul_pos_left hd, rfl⟩

theorem ssdInitParams_ok {cfg : ConvConfig} {size n : Nat} {spp : SsdParams}
    (h : ssdInitParams cfg.toSsdConfig size n = .ok spp) : Derived cfg size n spp := by
  obtain ⟨blkSize, p⟩ := ssdInitParams_produced h
  obtain ⟨hdies, hr⟩ := blksAndSize_ok p.blks
  obtain ⟨hblks, rfl⟩ := Prod.mk.inj hr
  have hratio : spp.pgsPerOneshotpg =
      spp.pgsPerFlashpg * (cfg.oneshotPageSize / cfg.flashPageSize) := by
    apply Nat.eq_of_mul_eq_mul_left (show 0 < 4096 by decide)
    rw [← p.oneshot_pages, ← Nat.mul_assoc, ← p.flash_pages]
    exact p.oneshot_flash
  exact {
    parts_pos := p.parts_pos
    secsPerPg := p.secsPerPg
    pgsz := p.pgsz
    nchs := p.nchs
    luns := p.luns
    pls := p.pls
    blks := hblks
    dies_pos := hdies
    flash_pos := p.flash_pos
    oneshot_pos := p.oneshot_pos
    oneshotpgs := p.oneshotpgs
    oneshot := (Nat.mul_comm _ _).trans p.oneshot_pages.symm
    blk_oneshot := p.blk
    blk_flash := by rw [p.blk, p.flashpgs, hratio, Nat.mul_assoc]
    pl := p.pl
    pl_lt := p.pl_lt
    lun := p.lun
    ch := p.ch
    tt := p.tt
    luns_lt := p.luns_lt
    line := p.ttLuns ▸ p.line
    lines := p.lines
    maxChXferSize := p.maxChXferSize
    chBandwidth := p.chBandwidth
    pcieBandwidth := p.pcieBandwidth
    writeBufferSize := p.writeBufferSize }

theorem Derived.luns_pos {cfg : ConvConfig} {size n : Nat} {spp : SsdParams}
    (d : Derived cfg size n spp) : 0 < spp.nchs ∧ 0 < spp.lunsPerCh := by
  have hd := d.dies_pos
  rw [d.nchs, d.luns]
  exact ⟨Nat.pos_of_mul_pos_left hd, Nat.pos_of_mul_pos_left (Nat.pos_of_mul_pos_right hd)⟩

/-- The page counts with no wrap-around, for one plane per LUN. -/
theorem Derived.counts {cfg : ConvConfig} {size n : Nat} {spp : SsdParams}
    (d : Derived cfg size n spp) (hl : spp.blksPerPl = spp.ttLines) :
    spp.plsPerLun = 1 ∧ spp.pgsPerLun = spp.pgsPerPl ∧
      spp.pgsPerCh = spp.pgsPerLun * spp.lunsPerCh ∧ spp.ttPgs = spp.pgsPerCh * spp.nchs ∧
      spp.pgsPerLine = spp.nchs * spp.lunsPerCh * spp.pgsPerBlk ∧ spp.ttPgs < 2^62 := by
  have hblk : 0 < spp.blksPerPl := d.blks ▸ cfg.blks_pos
  obtain ⟨hch, hlun⟩ := d.luns_pos
  have hpls : spp.plsPerLun = 1 := by
    rw [d.lines] at hl
    exact Nat.eq_of_mul_eq_mul_left hblk (by omega)
  have hpl := d.pl_lt
  have hluns := d.luns_lt
  have hperLun : spp.pgsPerLun = spp.pgsPerPl := by
    rw [d.lun, hpls, Nat.mul_one]
    exact u64_eq (by omega)
  have hall : spp.pgsPerPl * (spp.lunsPerCh * spp.nchs) < 2^62 :=
    calc spp.pgsPerPl * (spp.lunsPerCh * spp.nchs)
        < 2^31 * 2^31 := Nat.mul_lt_mul'' hpl hluns
      _ = 2^62 := by norm_num
  have hperCh : spp.pgsPerCh = spp.pgsPerLun * spp.lunsPerCh := by
    rw [d.ch]
    apply u64_eq
    calc spp.pgsPerLun * spp.lunsPerCh
        ≤ spp.pgsPerPl * (spp.lunsPerCh * spp.nchs) := by
          rw [hperLun]
          exact Nat.mul_le_mul_left _ (Nat.le_mul_of_pos_right _ hch)
      _ < 2^64 := by omega
  have htt : spp.pgsPerCh * spp.nchs = spp.pgsPerPl * (spp.lunsPerCh * spp.nchs) := by
    rw [hperCh, hperLun, Nat.mul_assoc]
  have htt' : spp.ttPgs = spp.pgsPerCh * spp.nchs := by
    rw [d.tt]
    exact u64_eq (by omega)
  refine ⟨hpls, hperLun, hperCh, htt', ?_, by omega⟩
  rw [d.line, Nat.mul_comm spp.nchs]
  apply u64_eq
  calc spp.lunsPerCh * spp.nchs * spp.pgsPerBlk
      ≤ spp.pgsPerPl * (spp.lunsPerCh * spp.nchs) := by
        rw [d.pl, Nat.mul_comm]
        exact Nat.mul_le_mul_right _ (Nat.le_mul_of_pos_right _ hblk)
    _ < 2^64 := by omega

/-- A namespace whose page count is zero has no page in any block. -/
theorem Derived.no_pages {cfg : ConvConfig} {size n : Nat} {spp : SsdParams}
    (d : Derived cfg size n spp) (hl : spp.blksPerPl = spp.ttLines) (hz : spp.ttPgs = 0) :
    spp.pgsPerBlk = 0 ∧ spp.plsPerLun = 1 := by
  obtain ⟨hpls, hlun, hch, htt, _, _⟩ := d.counts hl
  obtain ⟨hnchs, hluns⟩ := d.luns_pos
  have hblk : 0 < spp.blksPerPl := d.blks ▸ cfg.blks_pos
  refine ⟨?_, hpls⟩
  rw [htt, hch, hlun, d.pl] at hz
  simp only [Nat.mul_eq_zero] at hz
  omega

theorem Derived.geometry {cfg : ConvConfig} {size n : Nat} {spp : SsdParams}
    (d : Derived cfg size n spp) (hl : spp.blksPerPl = spp.ttLines) (hpos : 0 < spp.ttPgs) :
    Geometry spp := by
  obtain ⟨hpls, hlun, hch, htt, hline, hlt⟩ := d.counts hl
  have hblk : 0 < spp.pgsPerBlk := by
    rw [htt, hch, hlun, d.pl] at hpos
    exact Nat.pos_of_mul_pos_right (Nat.pos_of_mul_pos_right (Nat.pos_of_mul_pos_right hpos))
  exact {
    nchs_pos := d.luns_pos.1
    luns_pos := d.luns_pos.2
    pls_eq := hpls
    blks_le := d.blks ▸ cfg.blks_le
    oneshot_pos := d.oneshot_pos
    flash_pos := d.flash_pos
    blk_pos := hblk
    blk_oneshot := d.blk_oneshot
    blk_flash := d.blk_flash
    line_eq := hline
    lines_eq := hl.symm
    pl_eq := d.pl
    lun_eq := hlun
    ch_eq := hch
    tt_eq := htt
    tt_lt := by omega }

section Fresh

variable {spp : SsdParams} {mem : Leftover} {ssd : Ssd}

/-- The first two lines are open, the others free. -/
def freshHome (x : Nat) : Home := if x = 0 then .user else if x = 1 then .gc else .free

def freshLines (spp : SsdParams) (mem : Leftover) : LineMgmt where
  lines := fun i => ⟨i, 0, 0, 0⟩
  freeLineList := List.range' 2 (spp.blksPerPl - 2)
  victimLinePq := pqueueInit spp.ttLines mem.pq
  fullLineList := []
  ttLines := spp.blksPerPl
  freeLineCnt := spp.blksPerPl - 2
  victimLineCnt := 0
  fullLineCnt := 0

def freshFtl (spp : SsdParams) (mem : Leftover) (ssd : Ssd) : ConvFtl where
  ssd := ssd
  maptbl := initMaptbl spp mem
  rmap := initRmap spp mem
  wp := ⟨0, 0, 0, 0, 0, 0⟩
  gcWp := ⟨1, 0, 0, 0, 1, 0⟩
  lm := freshLines spp mem
  wfc := ⟨spp.pgsPerLine, spp.pgsPerLine⟩
  gcCnt := 0

theorem convInitFtl_eq (hl : spp.blksPerPl = spp.ttLines) (h2 : 2 ≤ spp.blksPerPl) :
    convInitFtl spp mem ssd = .ok (freshFtl spp mem ssd) := by
  have hrange : List.range spp.blksPerPl = 0 :: 1 :: List.range' 2 (spp.blksPerPl - 2) := by
    obtain ⟨k, hk⟩ := Nat.exists_eq_add_of_le' h2
    rw [hk, List.range_eq_range', List.range'_succ, List.range'_succ]
    rfl
  unfold convInitFtl initLines
  rw [nvmevAssert_true hl, ok_bind, hrange]
  rfl

theorem convInitFtl_ok {s : ConvFtl} (h : convInitFtl spp mem ssd = .ok s) :
    spp.blksPerPl = spp.ttLines ∧ 2 ≤ spp.blksPerPl ∧ s = freshFtl spp mem ssd := by
  have hl : spp.blksPerPl = spp.ttLines := by
    unfold convInitFtl initLines at h
    obtain ⟨_, hlm, _⟩ := bind_eq_ok.mp h
    exact (nvmevAssert_bind_ok.mp hlm).1
  have h2 : 2 ≤ spp.blksPerPl := by
    by_contra hlt
    have hsmall : spp.blksPerPl = 0 ∨ spp.blksPerPl = 1 := by omega
    unfold convInitFtl initLines at h
    rw [nvmevAssert_true hl, ok_bind] at h
    rcases hsmall with hb | hb
    · rw [hb] at h
      exact nomatch h
    · rw [hb] at h
      exact nomatch h
  rw [convInitFtl_eq hl h2] at h
  exact ⟨hl, h2, (Except.ok.inj h).symm⟩

theorem freshHome_free {x : Nat} : freshHome x = .free ↔ 2 ≤ x := by
  unfold freshHome
  split
  · simp; omega
  · split
    · simp; omega
    · simp; omega

theorem freshHome_closed (x : Nat) :
    freshHome x ≠ .full ∧ freshHome x ≠ .victim ∧ freshHome x ≠ .held := by
  unfold freshHome
  split
  · decide
  · split
    · decide
    · decide

theorem freshFtl_shelved (hl : spp.blksPerPl = spp.ttLines) (h2 : 2 ≤ spp.blksPerPl) :
    Shelved spp (freshLines spp mem) freshHome := by
  refine ⟨?_, ?_, List.nodup_range', List.nodup_nil, ?_, rfl, rfl, ?_, ?_, fun _ _ _ => rfl,
    fun _ _ => rfl⟩
  · intro x
    rw [freshHome_free]
    change x ∈ List.range' 2 (spp.blksPerPl - 2) ↔ _
    rw [List.mem_range'_1]
    omega
  · intro x
    change x ∈ ([] : List Nat) ↔ _
    simp [(freshHome_closed x).1]
  · change spp.blksPerPl - 2 = (List.range' 2 (spp.blksPerPl - 2)).length
    rw [List.length_range']
  · refine ⟨Nat.le_refl 1, ?_, ?_⟩
    · intro j hj hj'
      exact absurd hj' (Nat.not_lt.mpr hj)
    · intro x
      constructor
      · exact fun hx => absurd hx.2 (freshHome_closed x).2.1
      · rintro ⟨j, hj, hj', _⟩
        exact absurd hj' (Nat.not_lt.mpr hj)
  · change spp.ttLines + 1 = _
    rw [hl]

theorem ssdInitNandBlk_clean : CleanBlock spp (ssdInitNandBlk spp) := ⟨rfl, rfl, fun _ _ => rfl⟩

theorem freshFtl_contents (hb : ∀ a, ssd.blk a = ssdInitNandBlk spp) (x : Nat) :
    LineContents spp (freshFtl spp mem ssd) x 0 := by
  refine LineContents.of_clean ?_ rfl rfl
  intro c _ l _
  change CleanBlock spp (ssd.blk _)
  rw [hb]
  exact ssdInitNandBlk_clean

theorem freshFtl_cur (mem : Leftover) (ssd : Ssd) (h2 : 2 ≤ spp.blksPerPl) (io : IoType) (x : Nat) :
    (getWp (freshFtl spp mem ssd) io).curline = x ↔ x < spp.blksPerPl ∧ freshHome x = io.home := by
  cases io
  · change 0 = x ↔ x < spp.blksPerPl ∧ freshHome x = .user
    unfold freshHome
    split
    · simp; omega
    · split
      · simp; omega
      · simp; omega
  · change 1 = x ↔ x < spp.blksPerPl ∧ freshHome x = .gc
    unfold freshHome
    split
    · simp; omega
    · split
      · simp; omega
      · simp; omega

theorem freshFtl_sound (g : Geometry spp) (h2 : 2 ≤ spp.blksPerPl)
    (hb : ∀ a, ssd.blk a = ssdInitNandBlk spp) (hperf : Rated spp → ssd.PerfOk) :
    Sound spp (freshFtl spp mem ssd) none := by
  refine ⟨freshHome, fun _ => 0, ?_, ?_, ?_⟩
  · refine ⟨hperf, ?_, freshFtl_cur mem ssd h2, freshFtl_shelved g.lines_eq.symm h2, ?_,
      fun x _ _ => freshFtl_contents hb x, fun _ _ _ => rfl, ?_, ?_, ?_, ?_⟩
    · intro io
      cases io
      · exact ⟨g.nchs_pos, g.luns_pos, g.blk_pos, rfl, rfl⟩
      · exact ⟨g.nchs_pos, g.luns_pos, g.blk_pos, rfl, rfl⟩
    · intro c _ l _ x _
      change BlockShape spp (ssd.blk _)
      rw [hb]
      exact ⟨rfl, fun _ _ => rfl⟩
    · intro x _ hx
      exact absurd hx (by simp [freshHome_closed x])
    · intro x _ hx
      exact absurd hx (by simp [freshHome_closed x])
    · intro x _ hx
      exact absurd hx (by simp [freshHome_closed x])
    · intro x _ hx
      exact absurd hx (by simp [freshHome_closed x])
  · intro io
    cases io
    · simp [Settled, wpIndex, allocIndex, getWp, freshFtl]
    · simp [Settled, wpIndex, allocIndex, getWp, freshFtl]
  · intro x
    simp [freshHome_closed x]

/-- The entries that `init_maptbl` does not reach happen to be unmapped. -/
def Blank (spp : SsdParams) (mem : Leftover) : Prop :=
  ∀ lpn, 2^31 ≤ lpn → lpn < spp.ttPgs → mem.maptbl lpn = unmappedPpa

theorem initMaptbl_unmapped (hm : Blank spp mem) {lpn : Nat} (hlpn : lpn < spp.ttPgs) :
    initMaptbl spp mem lpn = unmappedPpa := by
  unfold initMaptbl
  split
  · rfl
  · exact hm lpn (by omega) hlpn

theorem freshFtl_map (hb : ∀ a, ssd.blk a = ssdInitNandBlk spp) (hm : Blank spp mem) :
    MapOk spp (freshFtl spp mem ssd) (ValidPage spp (freshFtl spp mem ssd)) := by
  constructor
  · intro lpn hlpn hne
    exact absurd (initMaptbl_unmapped hm hlpn) hne
  · rintro a ⟨_, hst⟩
    have hf : ((ssd.blk ⟨a.ch, a.lun, 0, a.blk⟩).pg a.pg).status = .valid := hst
    rw [hb] at hf
    exact nomatch hf

end Fresh

variable {cfg : ConvConfig} {mem : Nat → Leftover} {size : Nat} {spp : SsdParams} {ns : ConvNs}

def freshFtls (spp : SsdParams) (mem : Nat → Leftover) (n i : Nat) : ConvFtl :=
  if i < n then freshFtl spp (mem i) (ssdInit spp) else default

theorem convInitFtls_eq (hl : spp.blksPerPl = spp.ttLines) (h2 : 2 ≤ spp.blksPerPl)
    (mem : Nat → Leftover) (n : Nat) : convInitFtls spp mem n = .ok (freshFtls spp mem n) := by
  induction n with
  | zero => rfl
  | succ n ih =>
    unfold convInitFtls at ih ⊢
    rw [upto_succ, ih, ok_bind, convInitFtl_eq hl h2]
    refine congrArg Except.ok (funext fun i => ?_)
    unfold freshFtls
    by_cases hi : i = n
    · subst hi
      simp
    · rw [Function.update_of_ne hi]
      split
      · rw [if_pos (by omega)]
      · rw [if_neg (by omega)]

theorem convInitFtls_ok {n : Nat} (hn : 0 < n) {ftls : Nat → ConvFtl}
    (h : convInitFtls spp mem n = .ok ftls) :
    spp.blksPerPl = spp.ttLines ∧ 2 ≤ spp.blksPerPl ∧ ftls = freshFtls spp mem n := by
  obtain ⟨m, rfl⟩ := Nat.exists_eq_add_of_le' hn
  have hlines : spp.blksPerPl = spp.ttLines ∧ 2 ≤ spp.blksPerPl := by
    unfold convInitFtls at h
    rw [upto_succ] at h
    obtain ⟨_, _, h⟩ := bind_eq_ok.mp h
    obtain ⟨f, hf, _⟩ := bind_eq_ok.mp h
    obtain ⟨hl, h2, _⟩ := convInitFtl_ok hf
    exact ⟨hl, h2⟩
  rw [convInitFtls_eq hlines.1 hlines.2] at h
  exact ⟨hlines.1, hlines.2, (Except.ok.inj h).symm⟩

def freshNs (cfg : SsdConfig) (mem : Nat → Leftover) (size : Nat) (spp : SsdParams) : ConvNs where
  csi := .nvm
  nrParts := cfg.ssdPartitions
  size := convNsSize (convInitParams cfg) size
  ftls := freshFtls spp mem cfg.ssdPartitions
  pcie := chmodelInit spp.pcieBandwidth
  writeBuffer := bufferInit spp.writeBufferSize
  ticks := 0

/-- Initialisation succeeds when the lines can be set up and two of them opened. -/
theorem convInitNamespace_eq (hspp : ssdInitParams cfg.toSsdConfig size cfg.ssdPartitions = .ok spp)
    (hl : spp.blksPerPl = spp.ttLines) (h2 : 2 ≤ spp.blksPerPl) (mem : Nat → Leftover) :
    convInitNamespace cfg.toSsdConfig mem size = .ok (spp, freshNs cfg.toSsdConfig mem size spp) := by
  unfold convInitNamespace
  rw [hspp, ok_bind, convInitFtls_eq hl h2, ok_bind]
  rfl

structure Fresh (cfg : ConvConfig) (mem : Nat → Leftover) (size : Nat) (spp : SsdParams) (ns : ConvNs) :
    Prop where
  derived : Derived cfg size cfg.ssdPartitions spp
  lines : spp.blksPerPl = spp.ttLines
  two_le : 2 ≤ spp.blksPerPl
  csi : ns.csi = .nvm
  nrParts : ns.nrParts = cfg.ssdPartitions
  nsSize : ns.size = convNsSize (convInitParams cfg.toSsdConfig) size
  writeBuffer : ns.writeBuffer = bufferInit (u64 cfg.globalWbSize)
  load : ∀ i < ns.nrParts, ns.load i = freshFtl spp (mem i) (ssdInit spp)

theorem convInitNamespace_ok (h : convInitNamespace cfg.toSsdConfig mem size = .ok (spp, ns)) :
    Fresh cfg mem size spp ns := by
  unfold convInitNamespace at h
  obtain ⟨spp', hspp, h⟩ := bind_eq_ok.mp h
  obtain ⟨ftls, hftls, h⟩ := bind_eq_ok.mp h
  cases h
  have d := ssdInitParams_ok hspp
  obtain ⟨hl, h2, rfl⟩ := convInitFtls_ok d.parts_pos hftls
  refine ⟨d, hl, h2, rfl, rfl, rfl, ?_, ?_⟩
  · change bufferInit spp.writeBufferSize = _
    rw [d.writeBufferSize]
  · intro i hi
    have hi : i < cfg.ssdPartitions := hi
    unfold ConvNs.load freshFtls
    dsimp only
    rw [if_pos hi]
    rfl

theorem Fresh.parts_pos (h : Fresh cfg mem size spp ns) : 0 < ns.nrParts := by
  rw [h.nrParts]
  exact h.derived.parts_pos

/-- Every partition starts from tables whose untouched entries are unmapped. -/
def AllBlank (spp : SsdParams) (mem : Nat → Leftover) (n : Nat) : Prop := ∀ i < n, Blank spp (mem i)

theorem Fresh.nsOk (h : Fresh cfg mem size spp ns) (hpos : 0 < spp.ttPgs) :
    NsOk spp (AllBlank spp mem ns.nrParts) ns := by
  refine ⟨h.csi, h.parts_pos, ?_, ?_⟩
  · intro i hi
    rw [h.load i hi]
    exact freshFtl_sound (h.derived.geometry h.lines hpos) h.two_le (fun _ => rfl) ssdInit_perfOk
  · intro hM i hi
    rw [h.load i hi]
    exact freshFtl_map (fun _ => rfl) (hM i hi)

end NVMeVirt
