import NVMeVirt.ConvBuffer
import NVMeVirt.ConvProvision

/-!
# A mapping table with old addresses

`init_maptbl` does not reach the second half of a table of more than `2^31` pages. The run here
writes nothing but logical page 0 until a line is full of its old versions, and collects that line.
-/

namespace NVMeVirt
set_option autoImplicit false
open Outcome Census

variable {clk : Nat → Nat} {spp : SsdParams} {cpp : ConvParams} {s s' s₀ : ConvFtl} {v : Nat}

/-- Every page of the tables that `init_maptbl` leaves alone points into some line. -/
def staleLeftover : Leftover := ⟨fun lpn => pageAt 0 0 (lpn % 2^16) 0, fun _ => 0, fun _ => 0⟩

theorem staleLeftover_maptbl (lpn : Nat) : staleLeftover.maptbl lpn = pageAt 0 0 (lpn % 2^16) 0 := rfl

/-- Only logical page 0 has ever been written since `s₀`. -/
structure OnlyZero (spp : SsdParams) (s₀ s : ConvFtl) : Prop where
  sound : Sound spp s none
  others : ∀ lpn, lpn ≠ 0 → s.maptbl lpn = s₀.maptbl lpn
  valid : ∀ a, ValidPage spp s a → a = s.maptbl 0 ∧ s.rmap (pgidx spp a) = 0
  own : s.maptbl 0 = unmappedPpa ∨ ValidPage spp s (s.maptbl 0)

theorem OnlyZero.retime (k : OnlyZero spp s₀ s) {ssd : Ssd} (hblk : ssd.blk = s.ssd.blk)
    (hperf : Rated spp → ssd.PerfOk) : OnlyZero spp s₀ { s with ssd := ssd } := by
  have hvalid : ∀ a, ValidPage spp { s with ssd := ssd } a ↔ ValidPage spp s a := by
    intro a
    unfold ValidPage pgStatus statusAt blockAt
    rw [hblk]
  refine ⟨k.sound.retime hblk hperf, k.others, ?_, ?_⟩
  · exact fun a ha => k.valid a ((hvalid a).mp ha)
  · exact k.own.imp_right (hvalid _).mpr

/-- The old page of logical page 0 is dropped, and nothing is valid any more. -/
theorem OnlyZero.drop (k : OnlyZero spp s₀ s) (g : Geometry spp) :
    ∃ s₁, dropOldPage spp s (s.maptbl 0) = .ok s₁ ∧ Sound spp s₁ none ∧ s₁.maptbl = s.maptbl ∧
      getWp s₁ .user = getWp s .user ∧ budget spp s₁ .user = budget spp s .user ∧
      ∀ a, ¬ ValidPage spp s₁ a := by
  unfold dropOldPage
  rcases k.own with hun | hown
  · rw [if_neg (by simp [mappedPpa, hun])]
    refine ⟨s, rfl, k.sound, rfl, rfl, rfl, ?_⟩
    intro a ha
    exact ha.1.mapped ((k.valid a ha).1.trans hun)
  · have hp := hown.1
    rw [if_pos (mappedPpa_iff.mpr hp.mapped)]
    obtain ⟨s₁, hok, hs₁, hst, hmap, _, hfree, hwp⟩ := markPageInvalid_sound g k.sound hp.range hown.2
    have hidx := setRmapEnt_ok (s := s₁) g hp.range invalidLpn
    rw [← hp.eq_pageAt] at hok hidx
    rw [hok, ok_bind, hidx]
    refine ⟨_, rfl, hs₁.retable _ _, hmap, hwp .user, ?_, ?_⟩
    · unfold budget
      change s₁.lm.freeLineList.length * _ + (_ - wpIndex spp (getWp s₁ .user)) = _
      rw [hfree, hwp]
    · rintro a ⟨ha, hv⟩
      change pgStatus s₁ a = .valid at hv
      rw [hst.pgStatus ha] at hv
      split at hv
      · cases hv
      · rename_i hne
        exact hne ((k.valid a ⟨ha, hv⟩).1.trans hp.eq_pageAt)

theorem OnlyZero.write (k : OnlyZero spp s₀ s) (g : Geometry spp) (hplace : PlaceFits (getWp s .user))
    (hpos : 0 < spp.ttPgs) (hb : 1 < budget spp s .user) :
    ∃ s' ppa, convWritePage spp s 0 = .ok (s', ppa) ∧ OnlyZero spp s₀ s' ∧ Page spp ppa ∧
      budget spp s .user = budget spp s' .user + 1 := by
  obtain ⟨s₁, hdrop, hs₁, hmap, hwp, hbud, hnone⟩ := k.drop g
  obtain ⟨⟨s', ppa⟩, hok, hs', c, l, x, p, hppa, _, hw⟩ :=
    (writeNewPage_sat g hs₁ .user 0).returns (by
      rintro e (he | he | he)
      · exact he (hwp ▸ hplace)
      · omega
      · omega)
  dsimp only at hs' hppa hw
  have hq := hw.range.page
  have hvalid : ∀ a, ValidPage spp s' a ↔ a = pageAt c l x p := by
    intro a
    constructor
    · rintro ⟨ha, hv⟩
      rw [hw.restatus.pgStatus ha] at hv
      split at hv
      · assumption
      · exact absurd ⟨ha, hv⟩ (hnone a)
    · rintro rfl
      exact ⟨hq, (hw.restatus.pgStatus hq).trans (if_pos rfl)⟩
  have hzero : s'.maptbl 0 = pageAt c l x p := by
    rw [hw.maptbl, Function.update_self]
  refine ⟨s', ppa, ?_, ⟨hs', ?_, ?_, ?_⟩, hppa ▸ hq, hbud ▸ hw.budget⟩
  · unfold convWritePage getMaptblEnt
    rw [if_pos hpos, ok_bind, hdrop]
    exact hok
  · intro lpn hne
    rw [hw.maptbl, Function.update_of_ne hne, hmap]
    exact k.others lpn hne
  · intro a ha
    have he := (hvalid a).mp ha
    subst he
    refine ⟨hzero.symm, ?_⟩
    change s'.rmap (pageIndex spp c l x p) = 0
    rw [hw.rmap, Function.update_self]
  · exact Or.inr ((hvalid _).mpr hzero)

section Rewrite

variable {cfg : ConvConfig} {mem : Nat → Leftover} {size : Nat} {b : BufferState}

/-- Between two writes to logical page 0. -/
structure Rewriting (clk : Nat → Nat) (cfg : ConvConfig) (mem : Nat → Leftover) (size : Nat)
    (spp : SsdParams) (s₀ : ConvFtl) (b : BufferState) : Prop where
  run : BufferRun clk cfg mem size alignedWrites spp b
  pending : b.pending = []
  parts : b.ns.nrParts = 1
  room : spp.pgsPerOneshotpg * spp.pgsz ≤ b.ns.writeBuffer.size
  only : OnlyZero spp s₀ (b.ns.load 0)

theorem writeOneLpn_zero (clk : Nat → Nat) {w : WriteState}
    (hn : w.ns.nrParts = 1) (k : OnlyZero spp s₀ (w.ns.load 0))
    (g : Geometry spp) (hplace : PlaceFits (getWp (w.ns.load 0) .user)) (hrated : Rated spp)
    (hpos : 0 < spp.ttPgs) (hb : 1 < budget spp (w.ns.load 0) .user) (req : NvmevRequest) (stime : Nat) :
    ∃ w', writeOneLpn clk spp req stime 0 w = .ok w' ∧ OnlyZero spp s₀ (w'.ns.load 0) ∧
      budget spp (w.ns.load 0) .user = budget spp (w'.ns.load 0) .user + 1 ∧ w'.ns.nrParts = 1 ∧
      w'.ns.writeBuffer = w.ns.writeBuffer := by
  obtain ⟨s', ppa, hok, k', hp, hbud⟩ := k.write g hplace hpos hb
  unfold writeOneLpn
  rw [hn]
  dsimp only [Nat.zero_mod, Nat.zero_div]
  rw [hok, ok_bind]
  dsimp only
  split
  · obtain ⟨⟨ssd, t⟩, hnand, hblk, hperf⟩ := (ssdAdvanceNand_paced clk spp k'.sound.perf
      { type := .user, cmd := .write, xferSize := spp.pgsz * spp.pgsPerOneshotpg, stime := stime,
        interleavePciDma := false, ppa := ppa } hp.range.ch hp.range.lun).returns
      (fun _ he => he hrated)
    rw [hnand]
    refine ⟨_, rfl, ?_, ?_, hn, rfl⟩
    · rw [load_store_same]
      exact k'.retime hblk hperf
    · rw [load_store_same]
      exact hbud
  · refine ⟨_, rfl, ?_, ?_, hn, rfl⟩
    · rw [load_store_same]
      exact k'
    · rw [load_store_same]
      exact hbud

/-- Between two commands the buffer has room for a page. -/
theorem Rewriting.page_free (k : Rewriting clk cfg mem size spp s₀ b) (g : Geometry spp) (hpos : 0 < spp.ttPgs)
    (hpgsz : spp.pgsz = 4096) : 4096 ≤ b.ns.writeBuffer.remaining := by
  have ht := (k.run.balanced hpos).total
  have hopen : openBytes spp b.ns = (b.ns.load 0).wp.pg % spp.pgsPerOneshotpg * 4096 := by
    unfold openBytes openPart
    rw [k.parts, Finset.sum_range_one, hpgsz]
  have hlt : (b.ns.load 0).wp.pg % spp.pgsPerOneshotpg < spp.pgsPerOneshotpg := Nat.mod_lt _ g.oneshot_pos
  have hroom := k.room
  rw [k.pending, hopen] at ht
  rw [hpgsz] at hroom
  simp only [bytesOf, List.map_nil, List.sum_nil] at ht
  omega

theorem BufferRun.drain {host : ConvNs → NvmevRequest → Prop} (n : Nat) : ∀ b : BufferState,
    BufferRun clk cfg mem size host spp b → b.pending.length = n →
    ∃ b', BufferRun clk cfg mem size host spp b' ∧ b'.pending = [] ∧ b'.ns.nrParts = b.ns.nrParts ∧
      b'.ns.writeBuffer.size = b.ns.writeBuffer.size ∧ ∀ i, b'.ns.load i = b.ns.load i := by
  induction n with
  | zero => exact fun b hr hl => ⟨b, hr, List.length_eq_zero_iff.mp hl, rfl, rfl, fun _ => rfl⟩
  | succ n ih =>
    intro b hr hl
    obtain ⟨op, hop⟩ := List.exists_mem_of_length_pos (Nat.lt_of_lt_of_eq (Nat.succ_pos n) hl.symm)
    obtain ⟨b', hr', hnil, hn, hsize, hload⟩ := ih _ (hr.release hop) (by
      dsimp only
      rw [List.length_erase_of_mem hop]
      omega)
    exact ⟨b', hr', hnil, hn, hsize, hload⟩

/-- The handler writes logical page 0 once more. -/
theorem OnlyZero.convWrite (clk : Nat → Nat) {ns : ConvNs}
    (k : OnlyZero spp s₀ (ns.load 0)) (hn : ns.nrParts = 1)
    (hfree : 4096 ≤ ns.writeBuffer.remaining) (g : Geometry spp) (hplace : PlaceFits (getWp (ns.load 0) .user))
    (hrated : Rated spp) (hpos : 0 < spp.ttPgs) (hsec : spp.secsPerPg = 8)
    (hb : 1 < budget spp (ns.load 0) .user) :
    ∃ ns' ret ops, convWrite clk spp ns (hostWrite 0 8) = .ok (some (ns', ret, ops)) ∧
      OnlyZero spp s₀ (ns'.load 0) ∧ budget spp (ns.load 0) .user = budget spp (ns'.load 0) .user + 1 ∧
      ns'.nrParts = 1 ∧ ns'.writeBuffer.size = ns.writeBuffer.size := by
  have hfirst : startLpn spp (hostWrite 0 8).cmd = 0 := Nat.zero_div _
  have hlast : endLpn spp (hostWrite 0 8).cmd = 0 := by
    unfold endLpn
    rw [hsec]
    rfl
  have hbytes : lbaToByte (nrLba (hostWrite 0 8).cmd) = 4096 := rfl
  obtain ⟨wbuf, halloc, hsize⟩ : ∃ wbuf, bufferAllocate ns.writeBuffer 4096 = (wbuf, 4096) ∧
      wbuf.size = ns.writeBuffer.size := by
    unfold bufferAllocate
    rw [if_neg (Nat.not_lt.mpr hfree)]
    exact ⟨_, rfl, rfl⟩
  obtain ⟨⟨ssd, t⟩, hxfer, hblk, hperf⟩ := (ssdAdvanceWriteBuffer_paced clk spp k.sound.perf
    (hostWrite 0 8).nsecsStart 4096).returns (fun _ he => he hrated)
  unfold NVMeVirt.convWrite
  rw [hfirst, hlast, hbytes]
  dsimp only
  rw [if_neg (by omega), Nat.zero_div, if_neg (Nat.not_le.mpr hpos), halloc]
  dsimp only
  rw [if_neg (Nat.lt_irrefl 4096)]
  change ∃ ns' ret ops, (ssdAdvanceWriteBuffer clk spp (ns.load 0).ssd _ 4096 >>= _) = _ ∧ _
  rw [hxfer, ok_bind]
  dsimp only
  -- the namespace after the transfer over PCIe
  obtain ⟨ns₁, hns₁⟩ : ∃ ns₁, ns₁ = ConvNs.store { ns with writeBuffer := wbuf } 0
    { ns.load 0 with ssd := ssd } := ⟨_, rfl⟩
  have hload : ns₁.load 0 = { ns.load 0 with ssd := ssd } := by
    rw [hns₁, load_store_same]
  have k₁ : OnlyZero spp s₀ (ns₁.load 0) := by
    rw [hload]
    exact k.retime hblk hperf
  have hbud : budget spp (ns₁.load 0) .user = budget spp (ns.load 0) .user := by
    rw [hload]
    rfl
  have hplace₁ : PlaceFits (getWp (ns₁.load 0) .user) := by
    rw [hload]
    exact hplace
  obtain ⟨w, hw, k₂, hbud₂, hn₂, hwb₂⟩ := writeOneLpn_zero clk (w := ⟨ns₁, t, []⟩) (hns₁ ▸ hn) k₁ g
    hplace₁ hrated hpos (hbud ▸ hb) (hostWrite 0 8) t
  have hlpns : writeLpns clk spp (hostWrite 0 8) t 0 0 ⟨ns₁, t, []⟩ = .ok w := hw
  change ∃ ns' ret ops, (writeLpns clk spp (hostWrite 0 8) t 0 0
    ⟨ConvNs.store { ns with writeBuffer := wbuf } 0 { ns.load 0 with ssd := ssd }, t, []⟩ >>= _) = _ ∧ _
  rw [← hns₁, hlpns, ok_bind]
  refine ⟨_, _, _, rfl, k₂, hbud ▸ hbud₂, hn₂, ?_⟩
  rw [hwb₂, hns₁]
  exact hsize

/-- One more write to logical page 0. -/
theorem Rewriting.step (k : Rewriting clk cfg mem size spp s₀ b) (g : Geometry spp)
    (hplace : PlaceFits (getWp (b.ns.load 0) .user)) (hrated : Rated spp) (hpos : 0 < spp.ttPgs)
    (hsec : spp.secsPerPg = 8) (hpgsz : spp.pgsz = 4096)
    (hb : 10 * spp.pgsPerLine < budget spp (b.ns.load 0) .user) :
    ∃ b', Rewriting clk cfg mem size spp s₀ b' ∧
      budget spp (b.ns.load 0) .user = budget spp (b'.ns.load 0) .user + 1 := by
  have hline := line_pos g
  obtain ⟨ns₁, ret, ops, hok, k₁, hbud, hn, hsize⟩ := k.only.convWrite clk k.parts
    (k.page_free g hpos hpgsz) g hplace hrated hpos hsec (by omega)
  have hcalm : (convInitParams cfg.toSsdConfig).gcThresLinesHigh < (ns₁.load 0).lm.freeLineCnt := by
    have hlt := k₁.sound.wpIndex_lt g .user
    rw [k₁.sound.free_cnt]
    change 8 < _
    unfold budget at hbud hb
    by_contra hle
    have hmul := Nat.mul_le_mul_right spp.pgsPerLine (Nat.not_lt.mp hle)
    omega
  have hcmd : convProcNvmeIoCmd clk spp (convInitParams cfg.toSsdConfig) 0 b.ns (hostWrite 0 8) ⟨0, 0⟩ =
      .ok ⟨true, ns₁.store 0 (ns₁.load 0), ret, ops⟩ := by
    unfold convProcNvmeIoCmd
    rw [nvmevAssert_true (k.run.reachable.nsOk hpos).1.csi, ok_bind]
    change (convWrite clk spp b.ns (hostWrite 0 8) >>= _) = _
    rw [hok, ok_bind]
    dsimp only
    rw [gcWhileHigh_calm hcalm]
    rfl
  have hrun := k.run.write (fun _ => ⟨by decide, by decide, by decide⟩) rfl hcmd rfl
  obtain ⟨b', hr', hnil, hn', hsize', hload⟩ := BufferRun.drain _ _ hrun rfl
  dsimp only at hn' hsize' hload
  refine ⟨b', ⟨hr', hnil, hn'.trans hn, ?_, ?_⟩, ?_⟩
  · rw [hsize']
    exact hsize.symm ▸ k.room
  · rw [hload, load_store_same]
    exact k₁
  · rw [hload, load_store_same]
    exact hbud

/-- `n` writes to logical page 0, as long as the pages have addresses. -/
theorem Rewriting.steps (k : Rewriting clk cfg mem size spp s₀ b) (g : Geometry spp)
    (hrated : Rated spp) (hpos : 0 < spp.ttPgs) (hsec : spp.secsPerPg = 8) (hpgsz : spp.pgsz = 4096) (n : Nat)
    (hb : 10 * spp.pgsPerLine + n ≤ budget spp (b.ns.load 0) .user)
    (hplace : ∀ s, Sound spp s none → budget spp (b.ns.load 0) .user < budget spp s .user + n →
      budget spp s .user ≤ budget spp (b.ns.load 0) .user → PlaceFits (getWp s .user)) :
    ∃ b', Rewriting clk cfg mem size spp s₀ b' ∧
      budget spp (b.ns.load 0) .user = budget spp (b'.ns.load 0) .user + n := by
  induction n with
  | zero => exact ⟨b, k, rfl⟩
  | succ n ih =>
    obtain ⟨b₁, k₁, hbud₁⟩ := ih (by omega) (fun s hs hlt hle => hplace s hs (by omega) hle)
    have hhere := hplace _ k₁.only.sound (by omega) (by omega)
    obtain ⟨b₂, k₂, hbud₂⟩ := k₁.step g hhere hrated hpos hsec hpgsz (by omega)
    exact ⟨b₂, k₂, by omega⟩

structure OnlyZeroMoves (spp : SsdParams) (s₀ s : ConvFtl) : Prop where
  others : ∀ lpn, lpn ≠ 0 → s.maptbl lpn = s₀.maptbl lpn
  valid : ∀ a, ValidPage spp s a → s.rmap (pgidx spp a) = 0

theorem OnlyZeroMoves.congr (k : OnlyZeroMoves spp s₀ s)
    (hmap : s'.maptbl = s.maptbl) (hrmap : s'.rmap = s.rmap)
    (hvalid : ∀ a, ValidPage spp s' a → ValidPage spp s a) : OnlyZeroMoves spp s₀ s' := by
  refine ⟨?_, ?_⟩
  · rw [hmap]
    exact k.others
  · rw [hrmap]
    exact fun a ha => k.valid a (hvalid a ha)

theorem onlyZero_collect : CollectRule clk spp False s₀ v (fun _ _ _ _ => OnlyZeroMoves spp s₀) := by
  refine ⟨?_, ?_, fun _ k _ _ => k, ?_, ?_, fun k _ => k, fun k => k, fun k _ => k⟩
  · intro f c l i s ncmd ssd t _ k _ hok
    have hblk := (ssdAdvanceNand_blk clk spp s.ssd ncmd).of_ok hok
    refine k.congr rfl rfl ?_
    intro a ha
    unfold ValidPage pgStatus statusAt blockAt at ha
    rw [hblk] at ha
    exact ha
  · intro f c l i s s' c' l' x' p' _ k _ hr hv _ _ hw
    have hzero : s.rmap (pageIndex spp c l v (f * spp.pgsPerFlashpg + i)) = 0 := k.valid _ ⟨hr.page, hv⟩
    rw [hzero] at hw
    refine ⟨?_, ?_⟩
    · intro lpn hne
      rw [hw.maptbl, Function.update_of_ne hne]
      exact k.others lpn hne
    · rintro a ⟨ha, hst⟩
      rw [hw.rmap]
      by_cases he : pgidx spp a = pageIndex spp c' l' x' p'
      · rw [he, Function.update_self]
      · rw [Function.update_of_ne he]
        rw [hw.restatus.pgStatus ha, if_neg (fun hk => he (by rw [hk]; rfl))] at hst
        exact k.valid a ⟨ha, hst⟩
  · intro f c l s _ k _ _ _
    refine k.congr rfl rfl ?_
    rintro a ⟨ha, hst⟩
    have hput := blockPut_setBlk s c l v (f * spp.pgsPerFlashpg) (erasedBlock spp (blockAt s c l v))
    unfold pgStatus statusAt at hst
    by_cases hk : a.ch = c ∧ a.lun = l ∧ a.blk = v
    · rw [hk.1, hk.2.1, hk.2.2, hput.same] at hst
      rw [(erasedBlock_clean (blockAt s c l v)).free _ ha.range.pg] at hst
      cases hst
    · rw [hput.other hk] at hst
      exact ⟨ha, hst⟩
  · intro f c l i s ppa t k
    exact k.congr rfl rfl (fun _ ha => ha)

/-- A line is full of old versions of one page. -/
theorem OnlyZero.victim (k : OnlyZero spp s₀ s) (g : Geometry spp) (hpgs : 2 ≤ spp.pgsPerLine)
    (hfree : s.lm.freeLineList.length + 3 = spp.blksPerPl) :
    ∃ v s₁, selectVictimLine spp s true = some (v, s₁) := by
  rcases selectVictimLine_cases k.sound g true with ⟨_, hempty⟩ | ⟨v, s₁, hsel, _⟩
  · have hlines := lines_le_of_no_victim k.sound (hempty rfl)
    have hfull := full_lines_le k.sound
    have hone : ((physicalPages spp).filter (fun ppa => pageStatus s ppa = .valid)).card ≤ 1 := by
      refine Finset.card_le_one.mpr ?_
      intro a ha b hb
      exact (k.valid a ((validPage_iff g).mpr (Finset.mem_filter.mp ha))).1.trans
        (k.valid b ((validPage_iff g).mpr (Finset.mem_filter.mp hb))).1.symm
    rw [validPages_card k.sound g] at hone
    have hmul := Nat.mul_le_mul_right spp.pgsPerLine (show 1 ≤ s.lm.fullLineList.length by omega)
    omega
  · exact ⟨v, s₁, hsel⟩

/-- A logical page that has an old address in the collected line keeps it. -/
theorem OnlyZero.stale_kept (k : OnlyZero spp s₀ s) (g : Geometry spp) {s₁ : ConvFtl}
    (hsel : selectVictimLine spp s true = some (v, s₁))
    (hok : doGc clk spp cpp s true = .ok (s', 0)) {lpn : Nat} (hlpn : lpn ≠ 0) :
    v < spp.blksPerPl ∧ s'.maptbl lpn = s₀.maptbl lpn := by
  rcases selectVictimLine_cases k.sound g true with
    ⟨hnone, _⟩ | ⟨v', s₁', hsome, hv, _, hid, hno, hfits, hrel, hwp, hlist, hs₁⟩
  · rw [hsel] at hnone
    cases hnone
  rw [hsel] at hsome
  cases hsome
  have m := Mid.begin (M := False) g (fun hk => hk.elim) hrel hwp hlist hs₁
  have k₀ : OnlyZeroMoves spp s (collecting s₁ v) := by
    refine ⟨fun lpn _ => congrFun hrel.maptbl lpn, ?_⟩
    rintro a ⟨ha, hst⟩
    change s₁.rmap _ = 0
    rw [hrel.rmap]
    exact (k.valid a ⟨ha, (hrel.statusAt _ _ _ _).symm.trans hst⟩).2
  have hsat : Sat (gcCopyBack clk spp cpp v _) _ _ := gcCopyBack_sat onlyZero_collect m k₀ g hfits hno hv
  rw [doGc_selected g hsel hid hv] at hok
  obtain ⟨t, ht, hok⟩ := bind_eq_ok.mp hok
  cases hok
  exact ⟨hv, ((hsat.of_ok ht).2.others lpn hlpn).trans (k.others lpn hlpn)⟩

/-- The tables of 16 TiB, with the second half of `maptbl` left alone. -/
theorem pro_16TiB : ∃ spp, ssdInitParams convSamsung970Pro.toSsdConfig (2^44)
      convSamsung970Pro.ssdPartitions = .ok spp ∧
    spp.blksPerPl = spp.ttLines ∧ spp.blksPerPl = 8192 ∧ spp.pgsPerLine = 2^19 ∧ spp.ttPgs = 2^32 ∧
    spp.pgsPerOneshotpg = 8 ∧ Fits spp ∧ Rated spp :=
  ⟨_, rfl, rfl, rfl, rfl, rfl, rfl, ⟨by decide, by decide, by decide⟩, ⟨by decide, by decide, by decide⟩⟩

theorem Fresh.rewriting {ns : ConvNs} (clk : Nat → Nat)
    (h : convInitNamespace cfg.toSsdConfig mem size = .ok (spp, ns))
    (hpos : 0 < spp.ttPgs) (hparts : cfg.ssdPartitions = 1)
    (hroom : spp.pgsPerOneshotpg * spp.pgsz ≤ u64 cfg.globalWbSize) :
    Rewriting clk cfg mem size spp (ns.load 0) ⟨ns, [], ⟨fun _ => [], []⟩, []⟩ ∧
      budget spp (ns.load 0) .user = (spp.blksPerPl - 1) * spp.pgsPerLine := by
  have hf := convInitNamespace_ok h
  have hload := hf.load 0 hf.parts_pos
  have h2 := hf.two_le
  refine ⟨⟨.init h, rfl, hf.nrParts.trans hparts, ?_,
    (hf.nsOk hpos).sound 0 hf.parts_pos, fun _ _ => rfl, ?_, ?_⟩, ?_⟩
  · dsimp only
    rw [hf.writeBuffer]
    exact hroom
  · rintro a ⟨_, hst⟩
    dsimp only at hst
    rw [hload] at hst
    cases hst
  · left
    dsimp only
    rw [hload]
    change initMaptbl spp (mem 0) 0 = _
    unfold initMaptbl
    rw [if_pos (by omega)]
  · rw [hload]
    unfold budget
    change (List.range' 2 (spp.blksPerPl - 2)).length * _ + (_ - wpIndex spp ⟨0, 0, 0, 0, 0, 0⟩) = _
    have hz : wpIndex spp ⟨0, 0, 0, 0, 0, 0⟩ = 0 := by simp [wpIndex, allocIndex]
    rw [List.length_range', hz, Nat.sub_zero, ← Nat.succ_mul]
    congr 1
    omega

end Rewrite

end NVMeVirt
