import NVMeVirt.ConvMap

/-!
# Garbage collection

`do_gc` visits the victim line in the order flash page, channel, LUN, page. At position
(`f`, `c`, `l`, `i`) the pages before it have been copied, and in the last round the blocks
of the dies before it have been erased. `Mid` is the invariant of the four nested loops.
-/

namespace NVMeVirt
set_option autoImplicit false
open Outcome Census PQueue TwoWay

variable {clk : Nat → Nat} {spp : SsdParams} {cpp : ConvParams} {s s' : ConvFtl}
  {h : Nat → Home} {fill : Nat → Nat} {held : Option Nat}

theorem Inv.retime (i : Inv spp s h fill) {ssd : Ssd} (hblk : ssd.blk = s.ssd.blk)
    (hperf : Rated spp → ssd.PerfOk) : Inv spp { s with ssd := ssd } h fill := by
  have hb : ∀ c l x, blockAt { s with ssd := ssd } c l x = blockAt s c l x := by
    intro c l x
    change ssd.blk _ = s.ssd.blk _
    rw [hblk]
  refine ⟨hperf, i.wp, i.cur, i.shelved, ?_, ?_, i.fill_free, i.fill_closed, i.full_vpc, i.victim_ipc,
    i.fits⟩
  · intro c hc l hl x hx
    rw [hb]
    exact i.shape c hc l hl x hx
  · intro x hx hk
    exact (i.contents x hx hk).congr (fun c _ l _ => hb c l x) rfl rfl

theorem Sound.retime (hs : Sound spp s held) {ssd : Ssd} (hblk : ssd.blk = s.ssd.blk)
    (hperf : Rated spp → ssd.PerfOk) : Sound spp { s with ssd := ssd } held := by
  obtain ⟨h, fill, i, hset, hheld⟩ := hs
  exact ⟨h, fill, i.retime hblk hperf, fun io => hset io, hheld⟩

theorem Sound.perf (hs : Sound spp s held) : Rated spp → s.ssd.PerfOk := by
  obtain ⟨h, fill, i, _⟩ := hs
  exact i.perf

theorem Sound.recount (hs : Sound spp s held) (wfc : WriteFlowControl) (n : Nat) :
    Sound spp { s with wfc := wfc, gcCnt := n } held := by
  obtain ⟨h, fill, i, hset, hheld⟩ := hs
  refine ⟨h, fill, ⟨i.perf, i.wp, i.cur, i.shelved, i.shape, ?_, i.fill_free, i.fill_closed, i.full_vpc,
    i.victim_ipc, i.fits⟩, fun io => hset io, hheld⟩
  intro x hx hk
  exact (i.contents x hx hk).congr (fun _ _ _ _ => rfl) rfl rfl

/-- The commands that the collector issues: on a page of the partition, and reads of some bytes. -/
structure Commanded (spp : SsdParams) (ncmd : NandCmd) : Prop where
  die : ncmd.ppa.ch < spp.nchs ∧ ncmd.ppa.lun < spp.lunsPerCh
  mapped : ncmd.ppa ≠ unmappedPpa
  bytes : 0 < spp.pgsz → ncmd.cmd = .read → 0 < ncmd.xferSize

/-- A NAND command of the collector changes timing data only, and keeps what such commands keep. -/
theorem nandDelay_sat (hs : Sound spp s held) {ncmd : NandCmd} (hcmd : Commanded spp ncmd)
    {X : ConvFtl → Prop} (hx : X s)
    (hnand : ∀ ssd t, ssdAdvanceNand clk spp s.ssd ncmd = .ok (ssd, t) → X { s with ssd := ssd }) :
    Sat (nandDelay clk spp cpp s ncmd)
      (fun s' => X s' ∧ ∃ ssd, s' = { s with ssd := ssd } ∧ ssd.blk = s.ssd.blk ∧ (Rated spp → ssd.PerfOk))
      (fun _ => ¬ Rated spp) := by
  unfold nandDelay
  split
  · refine (ssdAdvanceNand_paced clk spp hs.perf ncmd hcmd.die.1 hcmd.die.2).bind_eq ?_
    rintro ⟨ssd, t⟩ heq ⟨hblk, hperf⟩
    exact ⟨hnand ssd t heq, ssd, rfl, hblk, hperf⟩
  · exact ⟨hx, s.ssd, rfl, rfl, hs.perf⟩

/-- Page `p'` of die (`c'`, `l'`) comes before position (`f`, `c`, `l`, `i`). -/
def Passed (F f c l i c' l' p' : Nat) : Prop :=
  p' / F < f ∨ p' / F = f ∧ (c' < c ∨ c' = c ∧ (l' < l ∨ l' = l ∧ p' % F < i))

def passedCount (spp : SsdParams) (f c l i : Nat) : Nat :=
  ((f * spp.nchs + c) * spp.lunsPerCh + l) * spp.pgsPerFlashpg + i

/-- The block of die (`c'`, `l'`) has been erased at position (`f`, `c`, `l`). -/
def Erased (spp : SsdParams) (f c l c' l' : Nat) : Prop :=
  spp.flashpgsPerBlk ≤ f ∨ f + 1 = spp.flashpgsPerBlk ∧ (c' < c ∨ c' = c ∧ l' < l)

theorem passed_start {F c' l' p' : Nat} : ¬ Passed F 0 0 0 0 c' l' p' := by
  unfold Passed
  generalize p' / F = q
  omega

theorem div_mod_flashpg {F f i : Nat} (hi : i < F) : (f * F + i) / F = f ∧ (f * F + i) % F = i := by
  rw [Nat.mul_comm f F, Nat.mul_add_div (by omega), Nat.mul_add_mod, Nat.div_eq_of_lt hi,
    Nat.mod_eq_of_lt hi]
  exact ⟨rfl, rfl⟩

theorem passed_succ {F f c l i c' l' p' : Nat} (hi : i < F) :
    Passed F f c l (i+1) c' l' p' ↔
      Passed F f c l i c' l' p' ∨ c' = c ∧ l' = l ∧ p' = f * F + i := by
  have hsplit : p' = f * F + i ↔ p' / F = f ∧ p' % F = i := by
    constructor
    · rintro rfl
      exact div_mod_flashpg hi
    · rintro ⟨rfl, rfl⟩
      exact (Nat.div_add_mod' p' F).symm
  unfold Passed
  rw [hsplit]
  generalize p' / F = q
  generalize p' % F = r
  omega

theorem passed_next_lun {F f c l c' l' p' : Nat} (hF : 0 < F) :
    Passed F f c (l+1) 0 c' l' p' ↔ Passed F f c l F c' l' p' := by
  have hm := Nat.mod_lt p' hF
  unfold Passed
  generalize p' / F = q
  generalize p' % F = r at *
  omega

theorem passed_next_ch {F f c L c' l' p' : Nat} (hl : l' < L) :
    Passed F f (c+1) 0 0 c' l' p' ↔ Passed F f c L 0 c' l' p' := by
  unfold Passed
  generalize p' / F = q
  omega

theorem passed_next_flashpg {F f C c' l' p' : Nat} (hc : c' < C) :
    Passed F (f+1) 0 0 0 c' l' p' ↔ Passed F f C 0 0 c' l' p' := by
  unfold Passed
  generalize p' / F = q
  omega

/-- Every page of a block has been passed when its last flash page has been. -/
theorem passed_last (g : Geometry spp) {f c l p' : Nat} (hf : f + 1 = spp.flashpgsPerBlk)
    (hp : p' < spp.pgsPerBlk) : Passed spp.pgsPerFlashpg f c l spp.pgsPerFlashpg c l p' := by
  have hd : p' / spp.pgsPerFlashpg < spp.flashpgsPerBlk := by
    rw [g.blk_flash] at hp
    exact Nat.div_lt_of_lt_mul hp
  have hm := Nat.mod_lt p' g.flash_pos
  unfold Passed
  omega

/-- A block after `mark_block_free`. -/
structure CleanBlock (spp : SsdParams) (b : NandBlock) : Prop where
  vpc : b.vpc = 0
  ipc : b.ipc = 0
  free : ∀ p < spp.pgsPerBlk, (b.pg p).status = .free

def erasedBlock (spp : SsdParams) (b : NandBlock) : NandBlock :=
  { b with
    pg := fun i => if i < spp.pgsPerBlk then { b.pg i with status := .free } else b.pg i
    ipc := 0
    vpc := 0
    eraseCnt := b.eraseCnt + 1 }

/-- The pages of the partition that hold current data while line `v` is collected. -/
def LivePage (spp : SsdParams) (s : ConvFtl) (v f c l i : Nat) (a : Ppa) : Prop :=
  ValidPage spp s a ∧ ¬ (a.blk = v ∧ Passed spp.pgsPerFlashpg f c l i a.ch a.lun a.pg)

/-- Line `v` of `s₀` has been collected up to a position. `M` stands for paired tables in `s₀`. -/
structure Mid (spp : SsdParams) (M : Prop) (s₀ : ConvFtl) (v : Nat) (f c l i : Nat) (s : ConvFtl) :
    Prop where
  sound : Sound spp s (some v)
  kept : ∀ c' < spp.nchs, ∀ l' < spp.lunsPerCh, ¬ Erased spp f c l c' l' →
    blockAt s c' l' v = blockAt s₀ c' l' v
  clean : ∀ c' < spp.nchs, ∀ l' < spp.lunsPerCh, Erased spp f c l c' l' →
    CleanBlock spp (blockAt s c' l' v)
  map : M → MapOk spp s (LivePage spp s v f c l i)
  unmapped : M → ∀ lpn < spp.ttPgs, s₀.maptbl lpn = unmappedPpa → s.maptbl lpn = unmappedPpa
  ipc : ∀ y, y ≠ v → (s.lm.lines y).ipc = (s₀.lm.lines y).ipc
  wp : s.wp = s₀.wp
  budget : budget spp s₀ .gc ≤ budget spp s .gc + passedCount spp f c l i

variable {M : Prop} {s₀ : ConvFtl} {v f c l i : Nat}

theorem MapOk.congr {live live' : Ppa → Prop} (m : MapOk spp s live) (hmap : s'.maptbl = s.maptbl)
    (hrmap : s'.rmap = s.rmap) (hlive : ∀ a, live' a ↔ live a) : MapOk spp s' live' := by
  unfold MapOk
  rw [hmap, hrmap]
  have he : live' = live := funext fun a => propext (hlive a)
  rw [he]
  exact m

/-- Two positions that the loops do not tell apart. -/
theorem Mid.at_position {f' c' l' i' : Nat} (m : Mid spp M s₀ v f c l i s)
    (hpass : ∀ c₁ < spp.nchs, ∀ l₁ < spp.lunsPerCh, ∀ p₁ < spp.pgsPerBlk,
      (Passed spp.pgsPerFlashpg f' c' l' i' c₁ l₁ p₁ ↔ Passed spp.pgsPerFlashpg f c l i c₁ l₁ p₁))
    (her : ∀ c₁ < spp.nchs, ∀ l₁ < spp.lunsPerCh, (Erased spp f' c' l' c₁ l₁ ↔ Erased spp f c l c₁ l₁))
    (hcount : passedCount spp f' c' l' i' = passedCount spp f c l i) :
    Mid spp M s₀ v f' c' l' i' s := by
  refine ⟨m.sound, ?_, ?_, ?_, m.unmapped, m.ipc, m.wp, hcount ▸ m.budget⟩
  · intro c₁ hc l₁ hl he
    exact m.kept c₁ hc l₁ hl (fun hk => he ((her c₁ hc l₁ hl).mpr hk))
  · intro c₁ hc l₁ hl he
    exact m.clean c₁ hc l₁ hl ((her c₁ hc l₁ hl).mp he)
  · intro hM
    refine (m.map hM).congr rfl rfl ?_
    intro a
    unfold LivePage
    constructor
    · rintro ⟨ha, hn⟩
      obtain ⟨hc, hl, _, hp⟩ := ha.1.range
      exact ⟨ha, fun hk => hn ⟨hk.1, (hpass _ hc _ hl _ hp).mpr hk.2⟩⟩
    · rintro ⟨ha, hn⟩
      obtain ⟨hc, hl, _, hp⟩ := ha.1.range
      exact ⟨ha, fun hk => hn ⟨hk.1, (hpass _ hc _ hl _ hp).mp hk.2⟩⟩

theorem Mid.retime (m : Mid spp M s₀ v f c l i s) {ssd : Ssd} (hblk : ssd.blk = s.ssd.blk)
    (hperf : Rated spp → ssd.PerfOk) : Mid spp M s₀ v f c l i { s with ssd := ssd } := by
  have hb : ∀ c l x, blockAt { s with ssd := ssd } c l x = blockAt s c l x := by
    intro c l x
    change ssd.blk _ = s.ssd.blk _
    rw [hblk]
  refine ⟨m.sound.retime hblk hperf, ?_, ?_, ?_, m.unmapped, m.ipc, m.wp, m.budget⟩
  · intro c' hc' l' hl' he
    rw [hb]
    exact m.kept c' hc' l' hl' he
  · intro c' hc' l' hl' he
    rw [hb]
    exact m.clean c' hc' l' hl' he
  · intro hM
    refine (m.map hM).congr rfl rfl ?_
    intro a
    unfold LivePage ValidPage pgStatus statusAt
    rw [hb]

/-- What may stop a collection that started in `s₀`. -/
def GcExcuse (spp : SsdParams) (M : Prop) (s₀ : ConvFtl) (_ : Fault) : Prop :=
  ¬ Rated spp ∨ ¬ M ∨ budget spp s₀ .gc ≤ spp.pgsPerLine

theorem passedCount_lt (g : Geometry spp) (hf : f < spp.flashpgsPerBlk) (hc : c < spp.nchs)
    (hl : l < spp.lunsPerCh) (hi : i < spp.pgsPerFlashpg) :
    passedCount spp f c l i < spp.pgsPerLine := by
  have hlt := Digits.pair_lt (Digits.pair_lt (Digits.pair_lt hf hc) hl) hi
  rw [g.line_eq, g.blk_flash]
  calc passedCount spp f c l i
      < spp.flashpgsPerBlk * spp.nchs * spp.lunsPerCh * spp.pgsPerFlashpg := hlt
    _ = spp.nchs * spp.lunsPerCh * (spp.pgsPerFlashpg * spp.flashpgsPerBlk) := by ring

theorem livePage_succ (hi : i < spp.pgsPerFlashpg) {a : Ppa} :
    LivePage spp s v f c l (i+1) a ↔
      LivePage spp s v f c l i a ∧ a ≠ pageAt c l v (f * spp.pgsPerFlashpg + i) := by
  unfold LivePage
  rw [passed_succ hi]
  constructor
  · rintro ⟨ha, hn⟩
    refine ⟨⟨ha, fun hk => hn ⟨hk.1, Or.inl hk.2⟩⟩, ?_⟩
    rintro rfl
    exact hn ⟨rfl, Or.inr ⟨rfl, rfl, rfl⟩⟩
  · rintro ⟨⟨ha, hn⟩, hne⟩
    refine ⟨ha, ?_⟩
    rintro ⟨hv, hp | ⟨hc, hl, hp⟩⟩
    · exact hn ⟨hv, hp⟩
    · apply hne
      rw [ha.1.eq_pageAt, hc, hl, hv, hp]

theorem livePage_here (hi : i < spp.pgsPerFlashpg)
    (hr : InRange spp c l v (f * spp.pgsPerFlashpg + i))
    (hv : statusAt s c l v (f * spp.pgsPerFlashpg + i) = .valid) :
    LivePage spp s v f c l i (pageAt c l v (f * spp.pgsPerFlashpg + i)) := by
  refine ⟨⟨hr.page, hv⟩, ?_⟩
  rintro ⟨_, hp⟩
  obtain ⟨hd, hm⟩ := div_mod_flashpg (f := f) hi
  simp only [Passed, pageAt, hd, hm] at hp
  omega

/-- A page that holds nothing is passed over. -/
theorem Mid.skip (m : Mid spp M s₀ v f c l i s) (hi : i < spp.pgsPerFlashpg)
    (hv : statusAt s c l v (f * spp.pgsPerFlashpg + i) ≠ .valid) :
    Mid spp M s₀ v f c l (i+1) s := by
  refine ⟨m.sound, m.kept, m.clean, ?_, m.unmapped, m.ipc, m.wp, ?_⟩
  · intro hM
    refine (m.map hM).congr rfl rfl ?_
    intro a
    rw [livePage_succ hi]
    refine ⟨fun hk => hk.1, fun hk => ⟨hk, ?_⟩⟩
    rintro rfl
    exact hv hk.1.2
  · have hb := m.budget
    change _ ≤ _ + (passedCount spp f c l i + 1)
    omega

/-- A valid page is copied through the write pointer of the collector. -/
theorem Mid.copy (m : Mid spp M s₀ v f c l i s) (g : Geometry spp) (hi : i < spp.pgsPerFlashpg)
    (hr : InRange spp c l v (f * spp.pgsPerFlashpg + i))
    (hv : statusAt s c l v (f * spp.pgsPerFlashpg + i) = .valid) {c' l' x' p' : Nat} (hx : x' ≠ v)
    (hw : Wrote spp s s' .gc (s.rmap (pageIndex spp c l v (f * spp.pgsPerFlashpg + i))) c' l' x' p')
    (hs' : Sound spp s' (some v)) : Mid spp M s₀ v f c l (i+1) s' := by
  have hq := hw.range.page
  have hlive := livePage_here hi hr hv
  -- the logical page is mapped to the page that is being copied
  have hfrom : M → s.maptbl (s.rmap (pageIndex spp c l v (f * spp.pgsPerFlashpg + i))) =
      pageAt c l v (f * spp.pgsPerFlashpg + i) := fun hM => ((m.map hM).backward _ hlive).2
  have hnot : ¬ LivePage spp s v f c l i (pageAt c' l' x' p') := by
    rintro ⟨⟨_, hst⟩, _⟩
    exact nomatch hw.was_free.symm.trans hst
  refine ⟨hs', ?_, ?_, ?_, ?_, ?_, ?_, ?_⟩
  · intro c₁ hc₁ l₁ hl₁ he
    rw [hw.blocks c₁ l₁ v (Ne.symm hx)]
    exact m.kept c₁ hc₁ l₁ hl₁ he
  · intro c₁ hc₁ l₁ hl₁ he
    rw [hw.blocks c₁ l₁ v (Ne.symm hx)]
    exact m.clean c₁ hc₁ l₁ hl₁ he
  · intro hM
    refine (m.map hM).wrote g hw (fun a ha => ha.1.1) hnot rfl (fun _ _ _ => rfl) ?_
    intro a
    rw [hfrom hM, livePage_succ hi]
    by_cases he : a = pageAt c' l' x' p'
    · subst he
      refine ⟨fun _ => Or.inl rfl, fun _ => ⟨⟨⟨hq, ?_⟩, fun hk => hx hk.1⟩, ?_⟩⟩
      · rw [hw.restatus.pgStatus hq, if_pos rfl]
      · intro hc
        exact hx (congrArg Ppa.blk hc)
    · have hval : ValidPage spp s' a ↔ ValidPage spp s a := by
        unfold ValidPage
        constructor
        · rintro ⟨ha, hst⟩
          rw [hw.restatus.pgStatus ha, if_neg he] at hst
          exact ⟨ha, hst⟩
        · rintro ⟨ha, hst⟩
          refine ⟨ha, ?_⟩
          rw [hw.restatus.pgStatus ha, if_neg he]
          exact hst
      unfold LivePage
      rw [hval]
      exact ⟨fun hk => Or.inr hk, fun hk => hk.resolve_left he⟩
  · intro hM lpn hlpn hun
    have hold := m.unmapped hM lpn hlpn hun
    rw [hw.maptbl, Function.update_of_ne, hold]
    rintro rfl
    rw [hfrom hM] at hold
    exact hr.page.mapped hold
  · intro y hy
    rw [hw.ipc y]
    exact m.ipc y hy
  · exact (hw.other_wp .user (by decide)).trans m.wp
  · have hb := m.budget
    have hbw := hw.budget
    change _ ≤ _ + (passedCount spp f c l i + 1)
    omega

/-- The steps of the collector, for a property of the position and the state: commands, a page
that is copied or passed over, an erase, the next turns of the loops. -/
structure CollectRule (clk : Nat → Nat) (spp : SsdParams) (M : Prop) (s₀ : ConvFtl) (v : Nat)
    (X : Nat → Nat → Nat → Nat → ConvFtl → Prop) : Prop where
  nand : ∀ {f c l i s ncmd ssd t}, Mid spp M s₀ v f c l i s → X f c l i s → Commanded spp ncmd →
    ssdAdvanceNand clk spp s.ssd ncmd = .ok (ssd, t) → X f c l i { s with ssd := ssd }
  copy : ∀ {f c l i s s' c' l' x' p'}, Mid spp M s₀ v f c l i s → X f c l i s → i < spp.pgsPerFlashpg →
    InRange spp c l v (f * spp.pgsPerFlashpg + i) →
    statusAt s c l v (f * spp.pgsPerFlashpg + i) = .valid →
    writeNewPage spp s .gc (s.rmap (pageIndex spp c l v (f * spp.pgsPerFlashpg + i))) =
      .ok (s', pageAt c' l' x' p') → x' ≠ v →
    Wrote spp s s' .gc (s.rmap (pageIndex spp c l v (f * spp.pgsPerFlashpg + i))) c' l' x' p' →
    X f c l (i+1) s'
  skip : ∀ {f c l i s}, Mid spp M s₀ v f c l i s → X f c l i s → i < spp.pgsPerFlashpg →
    statusAt s c l v (f * spp.pgsPerFlashpg + i) ≠ .valid → X f c l (i+1) s
  erase : ∀ {f c l s}, Mid spp M s₀ v f c l spp.pgsPerFlashpg s → X f c l spp.pgsPerFlashpg s →
    f + 1 = spp.flashpgsPerBlk → c < spp.nchs → l < spp.lunsPerCh →
    X f c (l+1) 0 (s.setBlk (pageAt c l v (f * spp.pgsPerFlashpg)) (erasedBlock spp (blockAt s c l v)))
  done : ∀ {f c l i s ppa endtime}, X f c l i s →
    X f c l i { s with ssd := s.ssd.setLun ppa { s.ssd.getLun ppa with gcEndtime := endtime } }
  next_lun : ∀ {f c l s}, X f c l spp.pgsPerFlashpg s → f + 1 < spp.flashpgsPerBlk → X f c (l+1) 0 s
  next_ch : ∀ {f c s}, X f c spp.lunsPerCh 0 s → X f (c+1) 0 0 s
  next_flashpg : ∀ {f s}, X f spp.nchs 0 0 s → f < spp.flashpgsPerBlk → X (f+1) 0 0 0 s

theorem CollectRule.trivial : CollectRule clk spp M s₀ v (fun _ _ _ _ _ => True) :=
  ⟨fun _ _ _ _ => True.intro, fun _ _ _ _ _ _ _ _ => True.intro, fun _ _ _ _ => True.intro,
    fun _ _ _ _ _ => True.intro, fun _ => True.intro, fun _ _ => True.intro, fun _ => True.intro,
    fun _ _ => True.intro⟩

variable {X : Nat → Nat → Nat → Nat → ConvFtl → Prop}

theorem gcWritePage_sat (hX : CollectRule clk spp M s₀ v X) (m : Mid spp M s₀ v f c l i s)
    (hx : X f c l i s) (g : Geometry spp) (hfits : Fits spp) (hf : f < spp.flashpgsPerBlk)
    (hi : i < spp.pgsPerFlashpg) (hr : InRange spp c l v (f * spp.pgsPerFlashpg + i))
    (hv : statusAt s c l v (f * spp.pgsPerFlashpg + i) = .valid) :
    Sat (gcWritePage clk spp cpp s (pageAt c l v (f * spp.pgsPerFlashpg + i)))
      (fun t => Mid spp M s₀ v f c l (i+1) t ∧ X f c l (i+1) t) (GcExcuse spp M s₀) := by
  unfold gcWritePage getRmapEnt
  rw [ppa2pgidx_pageAt g hr, ok_bind, pure_eq_ok, ok_bind]
  by_cases hl : validLpn spp (s.rmap (pageIndex spp c l v (f * spp.pgsPerFlashpg + i)))
  swap
  · rw [nvmevAssert_false hl, error_bind]
    right; left
    exact fun hM => hl ((m.map hM).backward _ (livePage_here hi hr hv)).1
  rw [nvmevAssert_true hl, ok_bind]
  have hcount := passedCount_lt g hf hr.ch hr.lun hi
  refine ((writeNewPage_sat g m.sound .gc _).mono (fun _ hp => hp) ?_).bind_eq ?_
  · rintro _ (he | he | he)
    · exact absurd (m.sound.placeFits hfits .gc) he
    · exact absurd hl (Nat.not_lt.mpr he)
    · have hb := m.budget
      right; right
      omega
  rintro ⟨s', ppa⟩ heq ⟨hs', c', l', x', p', hppa, hne, hw⟩
  dsimp only at hs' hppa hw ⊢
  subst hppa
  have hne' : x' ≠ v := fun he => hne (by rw [he])
  have m' := m.copy g hi hr hv hne' hw hs'
  have hx' := hX.copy m hx hi hr hv heq hne' hw
  have hcmd : Commanded spp
      { type := .gc, cmd := if lastPgInWordline spp (pageAt c' l' x' p') then .write else .nop,
        xferSize := if lastPgInWordline spp (pageAt c' l' x' p') then spp.pgsz * spp.pgsPerOneshotpg else 0,
        stime := 0, interleavePciDma := false, ppa := pageAt c' l' x' p' } := by
    refine ⟨⟨hw.range.ch, hw.range.lun⟩, hw.range.page.mapped, fun _ => ?_⟩
    dsimp only
    split
    · exact fun he => nomatch he
    · exact fun he => nomatch he
  refine (nandDelay_sat hs' hcmd hx' (fun ssd t ht => hX.nand m' hx' hcmd ht)).mono ?_ (fun _ he => Or.inl he)
  rintro _ ⟨hx'', ssd, rfl, hblk, hperf⟩
  exact ⟨m'.retime hblk hperf, hx''⟩

theorem inRange_flashpg (g : Geometry spp) (hf : f < spp.flashpgsPerBlk) (hc : c < spp.nchs)
    (hl : l < spp.lunsPerCh) (hv : v < spp.blksPerPl) (hi : i < spp.pgsPerFlashpg) :
    InRange spp c l v (f * spp.pgsPerFlashpg + i) := by
  refine ⟨hc, hl, hv, ?_⟩
  rw [g.blk_flash, Nat.mul_comm spp.pgsPerFlashpg spp.flashpgsPerBlk]
  exact Digits.pair_lt hf hi

theorem gcPpa_eq (g : Geometry spp) (hfits : Fits spp) (hf : f < spp.flashpgsPerBlk)
    (hc : c < spp.nchs) (hl : l < spp.lunsPerCh) (hv : v < spp.blksPerPl) :
    gcPpa spp v f c l = pageAt c l v (f * spp.pgsPerFlashpg) := by
  have hpg : f * spp.pgsPerFlashpg < spp.pgsPerBlk := (inRange_flashpg g hf hc hl hv g.flash_pos).pg
  unfold gcPpa pageAt
  rw [Nat.mod_eq_of_lt (Nat.lt_of_lt_of_le hc hfits.nchs_le),
    Nat.mod_eq_of_lt (Nat.lt_of_lt_of_le hl hfits.luns_le),
    Nat.mod_eq_of_lt (Nat.lt_of_lt_of_le hv g.blks_le),
    Nat.mod_eq_of_lt (Nat.lt_of_lt_of_le hpg hfits.pgs_le)]

theorem gcPpa_incPg (g : Geometry spp) (hfits : Fits spp) (hf : f < spp.flashpgsPerBlk)
    (hc : c < spp.nchs) (hl : l < spp.lunsPerCh) (hv : v < spp.blksPerPl)
    (hi : i < spp.pgsPerFlashpg) :
    (gcPpa spp v f c l).incPg i = pageAt c l v (f * spp.pgsPerFlashpg + i) := by
  have hpg := (inRange_flashpg g hf hc hl hv hi).pg
  rw [gcPpa_eq g hfits hf hc hl hv]
  unfold Ppa.incPg pageAt
  rw [Nat.mod_eq_of_lt (Nat.lt_of_lt_of_le hpg hfits.pgs_le)]

/-- Line `v` has no free page, as every line that is taken from the victim queue. -/
def NoFree (spp : SsdParams) (s : ConvFtl) (v : Nat) : Prop :=
  ∀ c < spp.nchs, ∀ l < spp.lunsPerCh, ∀ p < spp.pgsPerBlk, statusAt s c l v p ≠ .free

theorem Mid.statusAt_eq (m : Mid spp M s₀ v f c l i s) (hf : f < spp.flashpgsPerBlk)
    (hc : c < spp.nchs) (hl : l < spp.lunsPerCh) (p : Nat) :
    statusAt s c l v p = statusAt s₀ c l v p := by
  unfold statusAt
  rw [m.kept c hc l hl (by unfold Erased; omega)]

theorem countFlashpg_ok (m : Mid spp M s₀ v f c l 0 s) (g : Geometry spp) (hfits : Fits spp)
    (hno : NoFree spp s₀ v) (hf : f < spp.flashpgsPerBlk) (hc : c < spp.nchs)
    (hl : l < spp.lunsPerCh) (hv : v < spp.blksPerPl) :
    ∃ cnt, countFlashpg spp s (gcPpa spp v f c l) = .ok cnt ∧
      (cnt = 0 → ∀ j < spp.pgsPerFlashpg, statusAt s c l v (f * spp.pgsPerFlashpg + j) ≠ .valid) := by
  refine Sat.returns (Q := fun _ => False) ?_ (fun _ he => he)
  unfold countFlashpg
  refine upto_sat (fun k cnt => cnt = 0 → ∀ j < k,
    statusAt s c l v (f * spp.pgsPerFlashpg + j) ≠ .valid) spp.pgsPerFlashpg ?_ ?_
  · intro _ j hj
    exact absurd hj (Nat.not_lt_zero j)
  · intro k hk cnt hcnt
    have hr := inRange_flashpg g hf hc hl hv hk
    have hne : ((blockAt s c l v).pg (f * spp.pgsPerFlashpg + k)).status ≠ .free := by
      have he := m.statusAt_eq hf hc hl (f * spp.pgsPerFlashpg + k)
      unfold statusAt at he
      rw [he]
      exact hno c hc l hl _ hr.pg
    rw [gcPpa_incPg g hfits hf hc hl hv hk, getPg_pageAt g hr, ok_bind, nvmevAssert_true hne,
      ok_bind]
    change (if _ then cnt + 1 else cnt) = 0 → _
    split
    · exact fun h0 => absurd h0 (Nat.succ_ne_zero cnt)
    · rename_i hnv
      intro h0 j hj
      rcases Nat.lt_succ_iff_lt_or_eq.mp hj with hlt | rfl
      · exact hcnt h0 j hlt
      · exact hnv

theorem Mid.skip_all (hX : CollectRule clk spp M s₀ v X) (m : Mid spp M s₀ v f c l 0 s) (hx : X f c l 0 s)
    (hnone : ∀ j < spp.pgsPerFlashpg, statusAt s c l v (f * spp.pgsPerFlashpg + j) ≠ .valid)
    (n : Nat) (hn : n ≤ spp.pgsPerFlashpg) : Mid spp M s₀ v f c l n s ∧ X f c l n s := by
  induction n with
  | zero => exact ⟨m, hx⟩
  | succ n ih =>
    obtain ⟨mn, hxn⟩ := ih (by omega)
    have hnv := hnone n (by omega)
    exact ⟨mn.skip (by omega) hnv, hX.skip mn hxn (by omega) hnv⟩

theorem cleanOneFlashpg_sat (hX : CollectRule clk spp M s₀ v X) (m : Mid spp M s₀ v f c l 0 s)
    (hx : X f c l 0 s) (g : Geometry spp) (hfits : Fits spp) (hno : NoFree spp s₀ v)
    (hf : f < spp.flashpgsPerBlk) (hc : c < spp.nchs) (hl : l < spp.lunsPerCh) (hv : v < spp.blksPerPl) :
    Sat (cleanOneFlashpg clk spp cpp s (gcPpa spp v f c l))
      (fun t => Mid spp M s₀ v f c l spp.pgsPerFlashpg t ∧ X f c l spp.pgsPerFlashpg t)
      (GcExcuse spp M s₀) := by
  obtain ⟨cnt, hcnt, hzero⟩ := countFlashpg_ok m g hfits hno hf hc hl hv
  unfold cleanOneFlashpg
  rw [hcnt, ok_bind]
  split
  · rename_i h0
    exact Mid.skip_all hX m hx (hzero h0) _ (Nat.le_refl _)
  · rename_i h0
    have hppa := gcPpa_eq g hfits hf hc hl hv
    have hcmd : Commanded spp
        { type := .gc, cmd := .read, xferSize := spp.pgsz * cnt, stime := 0, interleavePciDma := false,
          ppa := gcPpa spp v f c l } := by
      rw [hppa]
      exact ⟨⟨hc, hl⟩, (inRange_flashpg g hf hc hl hv g.flash_pos).page.mapped,
        fun hp _ => Nat.mul_pos hp (Nat.pos_of_ne_zero h0)⟩
    refine ((nandDelay_sat m.sound hcmd hx (fun ssd t ht => hX.nand m hx hcmd ht)).mono
      (fun _ hp => hp) (fun _ he => Or.inl he)).bind ?_
    rintro _ ⟨hx', ssd, rfl, hblk, hperf⟩
    refine upto_sat (fun k t => Mid spp M s₀ v f c l k t ∧ X f c l k t) spp.pgsPerFlashpg
      ⟨m.retime hblk hperf, hx'⟩ ?_
    rintro k hk t ⟨mt, hxt⟩
    have hr := inRange_flashpg g hf hc hl hv hk
    rw [gcPpa_incPg g hfits hf hc hl hv hk, getPg_pageAt g hr, ok_bind]
    split
    · rename_i hvalid
      exact gcWritePage_sat hX mt hxt g hfits hf hk hr hvalid
    · rename_i hvalid
      exact ⟨mt.skip hk hvalid, hX.skip mt hxt hk hvalid⟩

theorem erasedBlock_clean (b : NandBlock) : CleanBlock spp (erasedBlock spp b) := by
  refine ⟨rfl, rfl, ?_⟩
  intro p hp
  simp [erasedBlock, hp]

theorem BlockShape.erased {b : NandBlock} (hb : BlockShape spp b) :
    BlockShape spp (erasedBlock spp b) := by
  refine ⟨hb.npgs, ?_⟩
  intro p hp
  simpa [erasedBlock, hp] using hb.nsecs p hp

theorem markBlockFree_ok {x p : Nat} (hb : BlockShape spp (blockAt s c l x)) :
    markBlockFree spp s (pageAt c l x p) =
      .ok (s.setBlk (pageAt c l x p) (erasedBlock spp (blockAt s c l x))) := by
  unfold markBlockFree
  dsimp only
  rw [nvmevAssert_true, ok_bind, nvmevAssert_true, ok_bind]
  · rfl
  · exact hb.npgs
  · exact hb.nsecs

theorem Sound.erase (hs : Sound spp s (some v)) (c l p : Nat) :
    Sound spp (s.setBlk (pageAt c l v p) (erasedBlock spp (blockAt s c l v))) (some v) := by
  obtain ⟨h, fill, i, hset, hheld⟩ := hs
  have hput := blockPut_setBlk s c l v p (erasedBlock spp (blockAt s c l v))
  refine ⟨h, fill, ⟨fun hd => ⟨(i.perf hd).ch, (i.perf hd).pcie⟩, i.wp, i.cur, i.shelved, ?_, ?_,
    i.fill_free, i.fill_closed, i.full_vpc, i.victim_ipc, i.fits⟩, fun io => hset io, hheld⟩
  · intro c' hc' l' hl' x hx
    rw [hput c' l' x]
    split
    · rename_i hk
      obtain ⟨rfl, rfl, rfl⟩ := hk
      exact (i.shape c' hc' l' hl' x hx).erased
    · exact i.shape c' hc' l' hl' x hx
  · intro x hx hk
    have hxv : x ≠ v := by
      rintro rfl
      exact hk ((hheld x).mpr rfl)
    exact (i.contents x hx hk).congr (fun c' _ l' _ => hput.other (fun hc => hxv hc.2.2)) rfl rfl

theorem Sound.shape (hs : Sound spp s held) {x : Nat} (hc : c < spp.nchs) (hl : l < spp.lunsPerCh)
    (hx : x < spp.blksPerPl) : BlockShape spp (blockAt s c l x) := by
  obtain ⟨h, fill, i, _⟩ := hs
  exact i.shape c hc l hl x hx

/-- The block of a die is erased when its last flash page has been copied. -/
theorem Mid.erase (m : Mid spp M s₀ v f c l spp.pgsPerFlashpg s) (g : Geometry spp)
    (hf : f + 1 = spp.flashpgsPerBlk) (p : Nat) :
    Mid spp M s₀ v f c (l+1) 0
      (s.setBlk (pageAt c l v p) (erasedBlock spp (blockAt s c l v))) := by
  have hput := blockPut_setBlk s c l v p (erasedBlock spp (blockAt s c l v))
  have her : ∀ c' l', Erased spp f c (l+1) c' l' ↔ Erased spp f c l c' l' ∨ c' = c ∧ l' = l := by
    intro c' l'
    unfold Erased
    omega
  refine ⟨m.sound.erase c l p, ?_, ?_, ?_, m.unmapped, m.ipc, m.wp, ?_⟩
  · intro c' hc' l' hl' he
    rw [her] at he
    rw [hput.other (fun hk => he (Or.inr ⟨hk.1, hk.2.1⟩))]
    exact m.kept c' hc' l' hl' (fun hk => he (Or.inl hk))
  · intro c' hc' l' hl' he
    by_cases hk : c' = c ∧ l' = l
    · obtain ⟨rfl, rfl⟩ := hk
      rw [hput.same]
      exact erasedBlock_clean _
    · rw [hput.other (fun hc => hk ⟨hc.1, hc.2.1⟩)]
      exact m.clean c' hc' l' hl' (((her c' l').mp he).resolve_right hk)
  · intro hM
    refine (m.map hM).congr rfl rfl ?_
    intro a
    unfold LivePage ValidPage pgStatus statusAt
    rw [passed_next_lun g.flash_pos, hput a.ch a.lun a.blk]
    split
    · rename_i hk
      obtain ⟨hc, hl, hv⟩ := hk
      constructor
      · rintro ⟨⟨ha, hst⟩, _⟩
        rw [(erasedBlock_clean _).free _ ha.range.pg] at hst
        exact nomatch hst
      · rintro ⟨⟨ha, _⟩, hn⟩
        refine absurd ⟨hv, ?_⟩ hn
        rw [hc, hl]
        exact passed_last g hf ha.range.pg
    · exact Iff.rfl
  · have hb := m.budget
    have hcnt : passedCount spp f c (l+1) 0 = passedCount spp f c l spp.pgsPerFlashpg := by
      unfold passedCount
      rw [← Nat.add_assoc, Nat.add_one_mul, Nat.add_zero]
    rw [hcnt]
    exact hb

theorem Mid.next_lun (m : Mid spp M s₀ v f c l spp.pgsPerFlashpg s) (g : Geometry spp)
    (hf : f + 1 < spp.flashpgsPerBlk) : Mid spp M s₀ v f c (l+1) 0 s := by
  refine m.at_position ?_ ?_ ?_
  · exact fun _ _ _ _ _ _ => passed_next_lun g.flash_pos
  · intro c₁ _ l₁ _
    unfold Erased
    omega
  · unfold passedCount
    rw [← Nat.add_assoc, Nat.add_one_mul, Nat.add_zero]

theorem gcOneFlashpg_sat (hX : CollectRule clk spp M s₀ v X) (m : Mid spp M s₀ v f c l 0 s)
    (hx : X f c l 0 s) (g : Geometry spp) (hfits : Fits spp) (hno : NoFree spp s₀ v)
    (hf : f < spp.flashpgsPerBlk) (hc : c < spp.nchs) (hl : l < spp.lunsPerCh) (hv : v < spp.blksPerPl) :
    Sat (gcOneFlashpg clk spp cpp v f c l s)
      (fun t => Mid spp M s₀ v f c (l+1) 0 t ∧ X f c (l+1) 0 t) (GcExcuse spp M s₀) := by
  have hppa := gcPpa_eq g hfits hf hc hl hv
  have hr := inRange_flashpg g hf hc hl hv g.flash_pos
  unfold gcOneFlashpg
  refine (cleanOneFlashpg_sat hX m hx g hfits hno hf hc hl hv).bind ?_
  rintro t ⟨mt, hxt⟩
  split
  · rename_i hlast
    rw [hppa, markBlockFree_ok (mt.sound.shape hc hl hv), ok_bind]
    have me := mt.erase g (by omega) (f * spp.pgsPerFlashpg)
    have hxe := hX.erase mt hxt (by omega) hc hl
    have hcmd : Commanded spp
        { type := .gc, cmd := .erase, xferSize := 0, stime := 0, interleavePciDma := false,
          ppa := pageAt c l v (f * spp.pgsPerFlashpg) } :=
      ⟨⟨hc, hl⟩, hr.page.mapped, fun _ he => nomatch he⟩
    refine ((nandDelay_sat me.sound hcmd hxe (fun ssd t ht => hX.nand me hxe hcmd ht)).mono
      (fun _ hp => hp) (fun _ he => Or.inl he)).bind ?_
    rintro _ ⟨hxd, ssd, rfl, hblk, hperf⟩
    have mr := me.retime hblk hperf
    exact ⟨mr.retime rfl (fun hr => (Ssd.setLun_timed (hperf hr) _ _).2), hX.done hxd⟩
  · exact ⟨mt.next_lun g (by omega), hX.next_lun hxt (by omega)⟩

theorem Mid.next_ch (m : Mid spp M s₀ v f c spp.lunsPerCh 0 s) : Mid spp M s₀ v f (c+1) 0 0 s := by
  refine m.at_position ?_ ?_ ?_
  · exact fun _ _ _ hl _ _ => passed_next_ch hl
  · intro c₁ _ l₁ hl₁
    unfold Erased
    omega
  · unfold passedCount
    ring

theorem Mid.next_flashpg (m : Mid spp M s₀ v f spp.nchs 0 0 s) (hf : f < spp.flashpgsPerBlk) :
    Mid spp M s₀ v (f+1) 0 0 0 s := by
  refine m.at_position ?_ ?_ ?_
  · exact fun _ hc _ _ _ _ => passed_next_flashpg hc
  · intro c₁ hc₁ l₁ _
    unfold Erased
    omega
  · unfold passedCount
    ring

theorem gcCopyBack_sat (hX : CollectRule clk spp M s₀ v X) (m : Mid spp M s₀ v 0 0 0 0 s)
    (hx : X 0 0 0 0 s) (g : Geometry spp) (hfits : Fits spp) (hno : NoFree spp s₀ v)
    (hv : v < spp.blksPerPl) :
    Sat (gcCopyBack clk spp cpp v s)
      (fun t => Mid spp M s₀ v spp.flashpgsPerBlk 0 0 0 t ∧ X spp.flashpgsPerBlk 0 0 0 t)
      (GcExcuse spp M s₀) := by
  unfold gcCopyBack
  refine upto_sat (fun f t => Mid spp M s₀ v f 0 0 0 t ∧ X f 0 0 0 t) _ ⟨m, hx⟩ ?_
  rintro f hf t ⟨mt, hxt⟩
  refine Sat.mono (upto_sat (fun c t => Mid spp M s₀ v f c 0 0 t ∧ X f c 0 0 t) _ ⟨mt, hxt⟩ ?_)
    (fun t' k => ⟨k.1.next_flashpg hf, hX.next_flashpg k.2 hf⟩) (fun _ he => he)
  rintro c hc t ⟨mt, hxt⟩
  refine Sat.mono (upto_sat (fun l t => Mid spp M s₀ v f c l 0 t ∧ X f c l 0 t) _ ⟨mt, hxt⟩ ?_)
    (fun t' k => ⟨k.1.next_ch, hX.next_ch k.2⟩) (fun _ he => he)
  rintro l hl t ⟨mt, hxt⟩
  exact gcOneFlashpg_sat hX mt hxt g hfits hno hf hc hl hv

theorem LineContents.of_clean {x : Nat}
    (hclean : ∀ c < spp.nchs, ∀ l < spp.lunsPerCh, CleanBlock spp (blockAt s c l x))
    (hv : (s.lm.lines x).vpc = 0) (hi : (s.lm.lines x).ipc = 0) : LineContents spp s x 0 := by
  refine ⟨?_, ?_, ?_, ?_⟩
  · intro c hc l hl
    have hb := hclean c hc l hl
    have htally : ∀ st, st ≠ .free → tally spp.pgsPerBlk (hasStatus (blockAt s c l x) st) = 0 := by
      intro st hst
      apply tally_eq_zero.mpr
      intro p hp
      rw [hasStatus_false]
      intro he
      exact hst (he.symm.trans (hb.free p hp))
    exact ⟨by rw [hb.vpc, htally _ (by decide)], by rw [hb.ipc, htally _ (by decide)]⟩
  · rw [hv, grid_congr (g := fun _ _ => 0), grid_const, Nat.mul_zero]
    exact fun c hc l hl => (hclean c hc l hl).vpc
  · rw [hi, grid_congr (g := fun _ _ => 0), grid_const, Nat.mul_zero]
    exact fun c hc l hl => (hclean c hc l hl).ipc
  · intro c hc l hl p hp
    exact ⟨fun _ => Nat.zero_le _, fun _ => (hclean c hc l hl).free p hp⟩

/-- What a finished collection of line `v` leaves. -/
structure Collected (spp : SsdParams) (M : Prop) (s₀ : ConvFtl) (v : Nat) (s' : ConvFtl) : Prop where
  sound : Sound spp s' none
  map : M → MapOk spp s' (ValidPage spp s')
  unmapped : M → ∀ lpn < spp.ttPgs, s₀.maptbl lpn = unmappedPpa → s'.maptbl lpn = unmappedPpa
  ipc : ∀ y, y ≠ v → (s'.lm.lines y).ipc = (s₀.lm.lines y).ipc
  ipc_victim : (s'.lm.lines v).ipc = 0
  wp : s'.wp = s₀.wp
  budget : budget spp s₀ .gc ≤ budget spp s' .gc

/-- What `mark_line_free` makes of line `v`. -/
def lineFreed (s : ConvFtl) (v : Nat) : ConvFtl :=
  { s with lm := { s.lm.setLine v { s.lm.lines v with ipc := 0, vpc := 0 } with
    freeLineList := s.lm.freeLineList ++ [v], freeLineCnt := s.lm.freeLineCnt + 1 } }

theorem markLineFree_eq {v : Nat} (hv : v < spp.blksPerPl) {ppa : Ppa} (hppa : ppa.blk = v) :
    markLineFree spp s ppa = .ok (lineFreed s v) := by
  unfold markLineFree
  rw [hppa, if_neg (Nat.not_le.mpr hv)]
  rfl

theorem lineFreed_other {v y : Nat} (hy : y ≠ v) : (lineFreed s v).lm.lines y = s.lm.lines y :=
  setLine_other _ _ hy

theorem lineFreed_self (s : ConvFtl) (v : Nat) :
    ((lineFreed s v).lm.lines v).vpc = 0 ∧ ((lineFreed s v).lm.lines v).ipc = 0 := by
  change ((s.lm.setLine v _).lines v).vpc = 0 ∧ ((s.lm.setLine v _).lines v).ipc = 0
  rw [setLine_same]
  exact ⟨rfl, rfl⟩

theorem budget_lineFreed (s : ConvFtl) (v : Nat) :
    budget spp (lineFreed s v) .gc = budget spp s .gc + spp.pgsPerLine := by
  unfold budget
  change (s.lm.freeLineList ++ [v]).length * spp.pgsPerLine + (spp.pgsPerLine - wpIndex spp (getWp s .gc)) =
    s.lm.freeLineList.length * spp.pgsPerLine + (spp.pgsPerLine - wpIndex spp (getWp s .gc)) + spp.pgsPerLine
  rw [List.length_append, List.length_singleton, Nat.add_one_mul]
  omega

/-- A clean line that is on no list goes to the free list. -/
theorem Inv.freeLine {h : Nat → Home} {fill : Nat → Nat} {v : Nat} (i : Inv spp s h fill)
    (hv : v < spp.blksPerPl) (hkv : h v = .held)
    (hclean : ∀ c < spp.nchs, ∀ l < spp.lunsPerCh, CleanBlock spp (blockAt s c l v)) :
    Inv spp (lineFreed s v) (Function.update h v .free) (Function.update fill v 0) := by
  have a₁ : Shelved spp (s.lm.setLine v { s.lm.lines v with ipc := 0, vpc := 0 }) h :=
    i.shelved.of_counters (setLine_field Line.id s.lm rfl) (setLine_field Line.pos s.lm rfl)
  have a₂ := a₁.put_free hv (by rw [hkv]; exact ⟨by decide, by decide, by decide⟩)
  have hother : ∀ {y k}, Function.update h v .free y = k → k ≠ .free → h y = k ∧ y ≠ v := by
    intro y k hk hne
    by_cases hy : y = v
    · subst hy
      rw [Function.update_self] at hk
      exact absurd hk.symm hne
    · rw [Function.update_of_ne hy] at hk
      exact ⟨hk, hy⟩
  refine ⟨i.perf, i.wp, ?_, a₂, i.shape, ?_, ?_, ?_, ?_, ?_, ?_⟩
  · intro io y
    have hio : Function.update h v .free y = io.home ↔ h y = io.home :=
      update_home_iff (by rw [hkv]; cases io <;> decide) (by cases io <;> decide)
    rw [hio]
    exact i.cur io y
  · intro y hy hk
    by_cases hyv : y = v
    · subst hyv
      rw [Function.update_self]
      exact LineContents.of_clean hclean (lineFreed_self s y).1 (lineFreed_self s y).2
    · rw [Function.update_of_ne hyv] at hk ⊢
      refine (i.contents y hy hk).congr (fun _ _ _ _ => rfl) ?_ ?_
      · exact congrArg Line.vpc (lineFreed_other hyv)
      · exact congrArg Line.ipc (lineFreed_other hyv)
  · intro y hy hk
    by_cases hyv : y = v
    · subst hyv
      exact Function.update_self _ _ _
    · rw [Function.update_of_ne hyv] at hk ⊢
      exact i.fill_free y hy hk
  · intro y hy hk
    have hyv : y ≠ v := by
      rintro rfl
      simp at hk
    rw [Function.update_of_ne hyv] at hk ⊢
    exact i.fill_closed y hy hk
  · intro y hy hk
    obtain ⟨hk', hyv⟩ := hother hk (by decide)
    exact (congrArg Line.vpc (lineFreed_other hyv)).trans (i.full_vpc y hy hk')
  · intro y hy hk
    obtain ⟨hk', hyv⟩ := hother hk (by decide)
    exact Nat.lt_of_lt_of_eq (i.victim_ipc y hy hk') (congrArg Line.ipc (lineFreed_other hyv)).symm
  · exact fun _ _ _ => i.fits v hv (Or.inr (Or.inr hkv))

theorem Mid.freed (m : Mid spp M s₀ v spp.flashpgsPerBlk 0 0 0 s) (g : Geometry spp)
    (hv : v < spp.blksPerPl) : Collected spp M s₀ v (lineFreed s v) := by
  obtain ⟨h, fill, i, hset, hheld⟩ := m.sound
  have hkv : h v = .held := (hheld v).mpr rfl
  have hclean : ∀ c < spp.nchs, ∀ l < spp.lunsPerCh, CleanBlock spp (blockAt s c l v) :=
    fun c hc l hl => m.clean c hc l hl (Or.inl (Nat.le_refl _))
  have hcur : ∀ io : IoType, (getWp s io).curline ≠ v := by
    rintro io rfl
    have hk := (i.cur_lt io).2
    rw [hkv] at hk
    cases io <;> exact nomatch hk
  refine ⟨⟨_, _, i.freeLine hv hkv hclean, ?_, ?_⟩, ?_, m.unmapped, ?_, (lineFreed_self s v).2, m.wp, ?_⟩
  · intro io
    change Function.update fill v 0 (getWp s io).curline = wpIndex spp (getWp s io)
    rw [Function.update_of_ne (hcur io)]
    exact hset io
  · intro y
    by_cases hyv : y = v
    · subst hyv
      simp
    · rw [Function.update_of_ne hyv, hheld y]
      exact ⟨fun he => absurd (Option.some.inj he).symm hyv, fun he => nomatch he⟩
  · -- no page of the line was mapped
    intro hM
    refine (m.map hM).congr rfl rfl ?_
    intro a
    unfold LivePage
    refine ⟨fun ha => ⟨ha, ?_⟩, fun ha => ha.1⟩
    rintro ⟨hb, _⟩
    have hst : statusAt s a.ch a.lun a.blk a.pg = .valid := ha.2
    have hfree := (hclean a.ch ha.1.range.ch a.lun ha.1.range.lun).free a.pg ha.1.range.pg
    rw [hb] at hst
    exact nomatch hst.symm.trans hfree
  · intro y hy
    exact (congrArg Line.ipc (lineFreed_other hy)).trans (m.ipc y hy)
  · have hb := m.budget
    have hcnt : passedCount spp spp.flashpgsPerBlk 0 0 0 = spp.pgsPerLine := by
      unfold passedCount
      rw [g.line_eq, g.blk_flash]
      ring
    rw [hcnt] at hb
    rw [budget_lineFreed]
    exact hb

theorem doGc_empty (hq : s.lm.victimLinePq.size = 1) (force : Bool) :
    doGc clk spp cpp s force = .ok (s, -1) := by
  unfold doGc selectVictimLine PQueue.pqueuePeek
  rw [if_pos hq]

/-- Selecting a victim takes a line without free pages out of the queue, if there is one. -/
theorem selectVictimLine_cases (hs : Sound spp s none) (g : Geometry spp) (force : Bool) :
    (selectVictimLine spp s force = none ∧ (force = true → s.lm.victimLinePq.size = 1)) ∨
    ∃ v s₁, selectVictimLine spp s force = some (v, s₁) ∧ v < spp.blksPerPl ∧
      0 < (s.lm.lines v).ipc ∧ (s₁.lm.lines v).id = v ∧ NoFree spp s v ∧ Fits spp ∧ Relined s s₁ ∧
      (∀ io, getWp s₁ io = getWp s io) ∧ s₁.lm.freeLineList = s.lm.freeLineList ∧
      Sound spp s₁ (some v) := by
  obtain ⟨h, fill, i, hset, hheld⟩ := hs
  unfold selectVictimLine pqueuePeek
  by_cases hempty : s.lm.victimLinePq.size = 1
  · rw [if_pos hempty]
    exact Or.inl ⟨rfl, fun _ => hempty⟩
  · rw [if_neg hempty]
    obtain ⟨pq, lines, hpop, ⟨hv, hkv⟩, hr, a⟩ := i.shelved.take_victim hempty
    generalize s.lm.victimLinePq.d 1 = v at *
    dsimp only
    by_cases hskip : (!force && decide (spp.pgsPerLine / 8 < (s.lm.lines v).vpc)) = true
    · left
      rw [if_pos hskip]
      refine ⟨rfl, ?_⟩
      rintro rfl
      simp at hskip
    · right
      rw [if_neg hskip, hpop]
      have hcont := i.contents v hv (by simp [hkv])
      have hfull := i.fill_closed v hv (Or.inr hkv)
      have hrel : Relined s { s with lm := { s.lm with
          victimLinePq := pq
          lines := Function.update lines v { lines v with pos := 0 }
          victimLineCnt := s.lm.victimLineCnt - 1 } } :=
        ⟨rfl, rfl, rfl, hr.vpc, hr.ipc⟩
      have hh : ∀ {y k}, k ≠ .held → k ≠ .victim → (Function.update h v .held y = k ↔ h y = k) := by
        intro y k hk hk'
        exact update_home_iff (by rw [hkv]; exact Ne.symm hk') (Ne.symm hk)
      refine ⟨v, _, rfl, hv, i.victim_ipc v hv hkv, a.line_id v hv, ?_,
        i.fits v hv (Or.inr (Or.inl hkv)), hrel, fun io => by cases io <;> rfl, rfl,
        Function.update h v .held, fill, ?_, fun io => hset io, ?_⟩
      · intro c hc l hl p hp hf
        have hle := (hcont.free_iff c hc l hl p hp).mp hf
        have hlt := allocIndex_lt g.wordlines hc hl hp
        omega
      · refine i.reline hrel i.wp ?_ a ?_ ?_ ?_ ?_ ?_ ?_
        · intro io y
          rw [hh (by cases io <;> decide) (by cases io <;> decide)]
          exact i.cur io y
        · intro y hy
          exact absurd ((hheld y).mp hy) (by simp)
        · intro y _ hk
          exact (hh (by decide) (by decide)).mp hk
        · intro y hy hk
          by_cases hyv : y = v
          · subst hyv
            exact hfull
          · rw [Function.update_of_ne hyv] at hk
            exact i.fill_closed y hy hk
        · intro y hy hk
          exact i.full_vpc y hy ((hh (by decide) (by decide)).mp hk)
        · intro y hy hk
          by_cases hyv : y = v
          · subst hyv
            simp at hk
          · rw [Function.update_of_ne hyv] at hk
            exact i.victim_ipc y hy hk
        · exact fun _ _ _ => i.fits v hv (Or.inr (Or.inl hkv))
      · intro y
        by_cases hyv : y = v
        · subst hyv
          simp
        · rw [Function.update_of_ne hyv, hheld y]
          exact ⟨fun he => (nomatch he), fun he => absurd (Option.some.inj he).symm hyv⟩

/-- The state in which the copying of a selected line begins. -/
def collecting (s₁ : ConvFtl) (v : Nat) : ConvFtl :=
  { s₁ with wfc := { s₁.wfc with creditsToRefill := (s₁.lm.lines v).ipc }, gcCnt := s₁.gcCnt + 1 }

theorem flashpgs_pos (g : Geometry spp) : 0 < spp.flashpgsPerBlk := by
  by_contra hz
  have hb := g.blk_pos
  rw [g.blk_flash, Nat.eq_zero_of_not_pos hz] at hb
  omega

/-- The collection of line `v` begins. -/
theorem Mid.begin {s₁ : ConvFtl} {v : Nat} (g : Geometry spp) (hm : M → MapOk spp s (ValidPage spp s))
    (hrel : Relined s s₁) (hwp : ∀ io, getWp s₁ io = getWp s io)
    (hfree : s₁.lm.freeLineList = s.lm.freeLineList) (hs₁ : Sound spp s₁ (some v)) :
    Mid spp M s v 0 0 0 0 (collecting s₁ v) := by
  have hpos := flashpgs_pos g
  refine ⟨hs₁.recount _ _, ?_, ?_, ?_, ?_, fun y _ => hrel.ipc y, hwp .user, ?_⟩
  · exact fun c' _ l' _ _ => hrel.blockAt c' l' v
  · intro c' _ l' _ he
    unfold Erased at he
    omega
  · intro hM
    refine (hm hM).congr hrel.maptbl hrel.rmap ?_
    intro a
    unfold LivePage ValidPage pgStatus
    constructor
    · rintro ⟨⟨ha, hst⟩, _⟩
      exact ⟨ha, (hrel.statusAt _ _ _ _).symm.trans hst⟩
    · rintro ⟨ha, hst⟩
      exact ⟨⟨ha, (hrel.statusAt _ _ _ _).trans hst⟩, fun hk => passed_start hk.2⟩
  · intro _ lpn _ hun
    exact (congrFun hrel.maptbl lpn).trans hun
  · refine Nat.le_of_eq ?_
    unfold passedCount NVMeVirt.budget
    change _ = s₁.lm.freeLineList.length * _ + (_ - wpIndex spp (getWp s₁ .gc)) + _
    rw [hfree, hwp]
    simp

/-- What `do_gc` does once a victim has been selected. -/
theorem doGc_selected {s₁ : ConvFtl} {force : Bool} {v : Nat} (g : Geometry spp)
    (hsel : selectVictimLine spp s force = some (v, s₁)) (hid : (s₁.lm.lines v).id = v)
    (hv : v < spp.blksPerPl) : doGc clk spp cpp s force = (do
      let t ← gcCopyBack clk spp cpp v (collecting s₁ v)
      .ok (lineFreed t v, 0)) := by
  have hb : (gcPpa spp v 0 0 0).blk = v := Nat.mod_eq_of_lt (Nat.lt_of_lt_of_le hv g.blks_le)
  unfold doGc
  rw [hsel]
  dsimp only
  rw [hid]
  change (gcCopyBack clk spp cpp v (collecting s₁ v) >>= _) = _
  refine congrArg _ (funext fun t => ?_)
  rw [markLineFree_eq hv hb]
  rfl

/-- One collection: nothing to do, or one line is emptied and returned to the free list. -/
theorem doGc_sat (hs : Sound spp s none) (g : Geometry spp)
    (hm : M → MapOk spp s (ValidPage spp s)) (force : Bool) :
    Sat (doGc clk spp cpp s force)
      (fun r => (r.1 = s ∧ (force = true → s.lm.victimLinePq.size = 1)) ∨
        ∃ v, v < spp.blksPerPl ∧ 0 < (s.lm.lines v).ipc ∧ Collected spp M s v r.1)
      (GcExcuse spp M s) := by
  rcases selectVictimLine_cases hs g force with
    ⟨hnone, hempty⟩ | ⟨v, s₁, hsome, hv, hipc, hid, hno, hfits, hrel, hwp, hfree, hs₁⟩
  · unfold doGc
    rw [hnone]
    exact Or.inl ⟨rfl, hempty⟩
  · rw [doGc_selected g hsome hid hv]
    have m := Mid.begin g hm hrel hwp hfree hs₁
    refine (gcCopyBack_sat .trivial m True.intro g hfits hno hv).bind ?_
    rintro t ⟨mt, _⟩
    exact Or.inr ⟨v, hv, hipc, mt.freed g hv⟩

/-- `while (should_gc_high(..)) do_gc(.., true)` keeps the partition consistent. -/
theorem gcWhileHigh_sound (g : Geometry spp) (fuel : Nat) (hs : Sound spp s none)
    (hm : M → MapOk spp s (ValidPage spp s)) :
    Sat (gcWhileHigh clk spp cpp fuel s)
      (fun s' => Sound spp s' none ∧ (M → MapOk spp s' (ValidPage spp s')) ∧
        (M → ∀ lpn < spp.ttPgs, s.maptbl lpn = unmappedPpa → s'.maptbl lpn = unmappedPpa) ∧
        s'.wp = s.wp)
      (fun _ => True) := by
  induction fuel generalizing s with
  | zero =>
    unfold gcWhileHigh
    split
    · exact trivial
    · exact ⟨hs, hm, fun _ _ _ hu => hu, rfl⟩
  | succ fuel ih =>
    unfold gcWhileHigh
    split
    · refine ((doGc_sat hs g hm true).mono (fun _ hp => hp) (fun _ _ => trivial)).bind ?_
      rintro ⟨t, ret⟩ (⟨rfl, _⟩ | ⟨v, _, _, hcol⟩)
      · exact ih hs hm
      · refine (ih hcol.sound hcol.map).mono ?_ (fun _ he => he)
        rintro t' ⟨hs', hm', hu', hwp'⟩
        exact ⟨hs', hm', fun hM lpn hl hu => hu' hM lpn hl (hcol.unmapped hM lpn hl hu),
          hwp'.trans hcol.wp⟩
    · exact ⟨hs, hm, fun _ _ _ hu => hu, rfl⟩

end NVMeVirt
