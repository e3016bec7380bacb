import NVMeVirt.ConvSteps
import NVMeVirt.StaleTable

/-!
# What a collection does

With paired tables `do_gc` moves the data of the victim line into pages that were free and gives
the line back clean. `PagesMoved` says how far this has come at a position of the four loops, in
addition to `Mid`.
-/

namespace NVMeVirt
set_option autoImplicit false
open Outcome Census TwoWay

variable {clk : Nat → Nat} {spp : SsdParams} {cpp : ConvParams} {s s' s₀ : ConvFtl} {v f c l i : Nat}

/-- The page at `a` belongs to line `v` and lies before a position. -/
def Behind (spp : SsdParams) (v f c l i : Nat) (a : Ppa) : Prop :=
  a.blk = v ∧ Passed spp.pgsPerFlashpg f c l i a.ch a.lun a.pg

/-- The collection of line `v` of `s₀` has moved the pages behind the position, and nothing else. -/
structure PagesMoved (spp : SsdParams) (s₀ : ConvFtl) (v f c l i : Nat) (s : ConvFtl) : Prop where
  status : ∀ a, Page spp a → a.blk ≠ v →
    pgStatus s a = pgStatus s₀ a ∨ pgStatus s₀ a = .free ∧ pgStatus s a = .valid
  stays : ∀ lpn < spp.ttPgs, s₀.maptbl lpn ≠ unmappedPpa → ¬ Behind spp v f c l i (s₀.maptbl lpn) →
    s.maptbl lpn = s₀.maptbl lpn
  moved : ∀ lpn < spp.ttPgs, s₀.maptbl lpn ≠ unmappedPpa → Behind spp v f c l i (s₀.maptbl lpn) →
    Page spp (s.maptbl lpn) ∧ (s.maptbl lpn).blk ≠ v ∧ pgStatus s₀ (s.maptbl lpn) = .free
  erased : ∀ c' < spp.nchs, ∀ l' < spp.lunsPerCh, Erased spp f c l c' l' →
    (blockAt s c' l' v).eraseCnt = (blockAt s₀ c' l' v).eraseCnt + 1

/-- The position may move where it passes no page with data, and the blocks of line `v` may change. -/
theorem PagesMoved.move_on {f' c' l' i' : Nat} (k : PagesMoved spp s₀ v f c l i s)
    (htbl : s'.maptbl = s.maptbl)
    (hst : ∀ a, Page spp a → a.blk ≠ v → pgStatus s' a = pgStatus s a)
    (hbehind : ∀ lpn < spp.ttPgs, s₀.maptbl lpn ≠ unmappedPpa →
      (Behind spp v f' c' l' i' (s₀.maptbl lpn) ↔ Behind spp v f c l i (s₀.maptbl lpn)))
    (her : ∀ c₁ < spp.nchs, ∀ l₁ < spp.lunsPerCh, Erased spp f' c' l' c₁ l₁ →
      (blockAt s' c₁ l₁ v).eraseCnt = (blockAt s₀ c₁ l₁ v).eraseCnt + 1) :
    PagesMoved spp s₀ v f' c' l' i' s' := by
  constructor
  · intro a ha hne
    rw [hst a ha hne]
    exact k.status a ha hne
  · intro lpn hlpn hmap hb
    rw [htbl]
    exact k.stays lpn hlpn hmap (fun hk => hb ((hbehind lpn hlpn hmap).mpr hk))
  · intro lpn hlpn hmap hb
    rw [htbl]
    exact k.moved lpn hlpn hmap ((hbehind lpn hlpn hmap).mp hb)
  · exact her

theorem PagesMoved.at_position {f' c' l' i' : Nat} (k : PagesMoved spp s₀ v f c l i s)
    (hm : MapOk spp s₀ (ValidPage spp s₀))
    (hpass : ∀ c₁ < spp.nchs, ∀ l₁ < spp.lunsPerCh, ∀ p₁ < spp.pgsPerBlk,
      (Passed spp.pgsPerFlashpg f' c' l' i' c₁ l₁ p₁ ↔ Passed spp.pgsPerFlashpg f c l i c₁ l₁ p₁))
    (her : ∀ c₁ < spp.nchs, ∀ l₁ < spp.lunsPerCh, (Erased spp f' c' l' c₁ l₁ ↔ Erased spp f c l c₁ l₁)) :
    PagesMoved spp s₀ v f' c' l' i' s := by
  apply k.move_on rfl (fun _ _ _ => rfl)
  · intro lpn hlpn hmap
    obtain ⟨hc, hl, _, hp⟩ := (hm.forward lpn hlpn hmap).1.1.range
    unfold Behind
    rw [hpass _ hc _ hl _ hp]
  · intro c₁ hc₁ l₁ hl₁ he
    exact k.erased c₁ hc₁ l₁ hl₁ ((her c₁ hc₁ l₁ hl₁).mp he)

theorem PagesMoved.retime (k : PagesMoved spp s₀ v f c l i s) {ssd : Ssd} (hblk : ssd.blk = s.ssd.blk) :
    PagesMoved spp s₀ v f c l i { s with ssd := ssd } := by
  have hb : ∀ c l x, blockAt { s with ssd := ssd } c l x = blockAt s c l x := by
    intro c l x
    change ssd.blk _ = s.ssd.blk _
    rw [hblk]
  refine k.move_on rfl ?_ ?_ ?_
  · intro a _ _
    unfold pgStatus statusAt
    rw [hb]
  · exact fun _ _ _ => Iff.rfl
  · intro c₁ hc₁ l₁ hl₁ he
    rw [hb]
    exact k.erased c₁ hc₁ l₁ hl₁ he

theorem behind_succ (hi : i < spp.pgsPerFlashpg) {a : Ppa} (ha : Page spp a) :
    Behind spp v f c l (i+1) a ↔
      Behind spp v f c l i a ∨ a = pageAt c l v (f * spp.pgsPerFlashpg + i) := by
  unfold Behind
  rw [passed_succ hi]
  constructor
  · rintro ⟨hv, hp | ⟨hc, hl, hp⟩⟩
    · exact Or.inl ⟨hv, hp⟩
    · exact Or.inr (by rw [ha.eq_pageAt, hc, hl, hv, hp])
  · rintro (⟨hv, hp⟩ | rfl)
    · exact ⟨hv, Or.inl hp⟩
    · exact ⟨rfl, Or.inr ⟨rfl, rfl, rfl⟩⟩

theorem not_behind_here (hi : i < spp.pgsPerFlashpg) :
    ¬ Behind spp v f c l i (pageAt c l v (f * spp.pgsPerFlashpg + i)) := by
  rintro ⟨_, hp⟩
  obtain ⟨hd, hr⟩ := div_mod_flashpg (f := f) hi
  simp only [Passed, pageAt, hd, hr] at hp
  omega

/-- A page without current data is nobody's page. -/
theorem PagesMoved.skip (k : PagesMoved spp s₀ v f c l i s) (m : Mid spp True s₀ v f c l i s)
    (hm : MapOk spp s₀ (ValidPage spp s₀)) (hi : i < spp.pgsPerFlashpg)
    (hv : statusAt s c l v (f * spp.pgsPerFlashpg + i) ≠ .valid) : PagesMoved spp s₀ v f c l (i+1) s := by
  apply k.move_on rfl (fun _ _ _ => rfl) ?_ k.erased
  intro lpn hlpn hmap
  rw [behind_succ hi (hm.forward lpn hlpn hmap).1.1]
  refine ⟨fun hk => hk.resolve_right ?_, Or.inl⟩
  intro he
  have hb : ¬ Behind spp v f c l i (s₀.maptbl lpn) := he ▸ not_behind_here hi
  have hsame := k.stays lpn hlpn hmap hb
  have hlive := ((m.map trivial).forward lpn hlpn (by rw [hsame]; exact hmap)).1.1.2
  rw [hsame, he] at hlive
  exact hv hlive

section Copy

variable {lpn c' l' x' p' : Nat} (k : PagesMoved spp s₀ v f c l i s) (m : Mid spp True s₀ v f c l i s)
  (hm : MapOk spp s₀ (ValidPage spp s₀)) (hi : i < spp.pgsPerFlashpg)
  (hr : InRange spp c l v (f * spp.pgsPerFlashpg + i)) (hlpn : lpn < spp.ttPgs)
  (hfrom : s.maptbl lpn = pageAt c l v (f * spp.pgsPerFlashpg + i))

include k m hm hi hr hlpn hfrom

theorem PagesMoved.behind_others {lpn' : Nat} (hlpn' : lpn' < spp.ttPgs)
    (hmap : s₀.maptbl lpn' ≠ unmappedPpa) (hne : lpn' ≠ lpn) :
    Behind spp v f c l (i+1) (s₀.maptbl lpn') ↔ Behind spp v f c l i (s₀.maptbl lpn') := by
  rw [behind_succ hi (hm.forward lpn' hlpn' hmap).1.1]
  refine ⟨?_, Or.inl⟩
  rintro (hb | he)
  · exact hb
  · by_contra hb
    have hsame := (k.stays lpn' hlpn' hmap hb).trans he
    have hmapped : s.maptbl lpn' ≠ unmappedPpa := by
      rw [hsame]
      exact hr.page.mapped
    exact hne ((m.map trivial).inj hlpn' hlpn hmapped (hsame.trans hfrom.symm))

/-- Its owner goes on to a page that was free. -/
theorem PagesMoved.copy (hx : x' ≠ v) (hw : Wrote spp s s' .gc lpn c' l' x' p') :
    PagesMoved spp s₀ v f c l (i+1) s' := by
  have hq := hw.range.page
  constructor
  · intro a ha hne
    rw [hw.restatus.pgStatus ha]
    split
    · rename_i he
      subst he
      rcases k.status _ hq hne with hst | ⟨_, hst⟩
      · exact Or.inr ⟨hst.symm.trans hw.was_free, rfl⟩
      · exact nomatch hw.was_free.symm.trans hst
    · exact k.status a ha hne
  · intro lpn' hlpn' hmap hb
    by_cases he : lpn' = lpn
    · subst he
      have hsame := k.stays lpn' hlpn' hmap
        (fun hk => hb ((behind_succ hi (hm.forward lpn' hlpn' hmap).1.1).mpr (Or.inl hk)))
      refine absurd ?_ hb
      rw [← hsame, hfrom]
      exact (behind_succ hi hr.page).mpr (Or.inr rfl)
    · rw [hw.maptbl, Function.update_of_ne he]
      exact k.stays lpn' hlpn' hmap
        (fun hk => hb ((k.behind_others m hm hi hr hlpn hfrom hlpn' hmap he).mpr hk))
  · intro lpn' hlpn' hmap hb
    rw [hw.maptbl]
    by_cases he : lpn' = lpn
    · subst he
      rw [Function.update_self]
      refine ⟨hq, hx, ?_⟩
      rcases k.status _ hq hx with hst | ⟨hst, _⟩
      · exact hst.symm.trans hw.was_free
      · exact hst
    · rw [Function.update_of_ne he]
      exact k.moved lpn' hlpn' hmap ((k.behind_others m hm hi hr hlpn hfrom hlpn' hmap he).mp hb)
  · intro c₁ hc₁ l₁ hl₁ he
    rw [hw.blocks c₁ l₁ v (Ne.symm hx)]
    exact k.erased c₁ hc₁ l₁ hl₁ he

end Copy

theorem PagesMoved.erase (k : PagesMoved spp s₀ v f c l spp.pgsPerFlashpg s)
    (m : Mid spp True s₀ v f c l spp.pgsPerFlashpg s) (g : Geometry spp)
    (hf : f + 1 = spp.flashpgsPerBlk) (hc : c < spp.nchs) (hl : l < spp.lunsPerCh) (p : Nat) :
    PagesMoved spp s₀ v f c (l+1) 0 (s.setBlk (pageAt c l v p) (erasedBlock spp (blockAt s c l v))) := by
  have hput := blockPut_setBlk s c l v p (erasedBlock spp (blockAt s c l v))
  refine k.move_on rfl ?_ ?_ ?_
  · intro a _ hne
    unfold pgStatus statusAt
    rw [hput.other (fun hk => hne hk.2.2)]
  · intro lpn _ _
    unfold Behind
    rw [passed_next_lun g.flash_pos]
  · intro c' hc' l' hl' he
    by_cases hk : c' = c ∧ l' = l
    · obtain ⟨rfl, rfl⟩ := hk
      rw [hput.same]
      change (blockAt s c' l' v).eraseCnt + 1 = _
      rw [m.kept c' hc l' hl (by unfold Erased; omega)]
    · rw [hput.other (fun hk' => hk ⟨hk'.1, hk'.2.1⟩)]
      apply k.erased c' hc' l' hl'
      unfold Erased at he ⊢
      omega

theorem moves_collect (hm : MapOk spp s₀ (ValidPage spp s₀)) (g : Geometry spp) :
    CollectRule clk spp True s₀ v (PagesMoved spp s₀ v) := by
  refine ⟨?_, ?_, ?_, ?_, ?_, ?_, ?_, ?_⟩
  · intro f c l i s ncmd ssd t _ k _ hok
    exact k.retime ((ssdAdvanceNand_blk clk spp s.ssd ncmd).of_ok hok)
  · intro f c l i s s' c' l' x' p' m k hi hr hv _ hx hw
    have hfrom := ((m.map trivial).backward _ (livePage_here hi hr hv)).2
    exact k.copy m hm hi hr hw.lpn_lt hfrom hx hw
  · intro f c l i s m k hi hv
    exact k.skip m hm hi hv
  · intro f c l s m k hf hc hl
    exact k.erase m g hf hc hl _
  · intro f c l i s ppa t k
    exact k.retime rfl
  · intro f c l s k hf
    refine k.at_position hm (fun _ _ _ _ _ _ => passed_next_lun g.flash_pos) ?_
    intro c₁ _ l₁ _
    unfold Erased
    omega
  · intro f c s k
    refine k.at_position hm (fun _ _ _ hl _ _ => passed_next_ch hl) ?_
    intro c₁ _ l₁ hl₁
    unfold Erased
    omega
  · intro f s k hf
    refine k.at_position hm (fun _ hc _ _ _ _ => passed_next_flashpg hc) ?_
    intro c₁ hc₁ l₁ _
    unfold Erased
    omega

/-- Line `v` has been collected: its data has moved to pages that were free, everything else has
stayed, and the line is clean at the end of the free list. -/
structure LineCollected (spp : SsdParams) (s s' : ConvFtl) (v : Nat) : Prop where
  mapped : ∀ lpn < spp.ttPgs, mappedPpa (s'.maptbl lpn) = mappedPpa (s.maptbl lpn)
  stays : ∀ lpn < spp.ttPgs, mappedPpa (s.maptbl lpn) = true → (s.maptbl lpn).blk ≠ v →
    s'.maptbl lpn = s.maptbl lpn
  moves : ∀ lpn < spp.ttPgs, mappedPpa (s.maptbl lpn) = true → (s.maptbl lpn).blk = v →
    validPpa spp (s'.maptbl lpn) ∧ (s'.maptbl lpn).blk ≠ v ∧
      pageStatus s (s'.maptbl lpn) = .free ∧ pageStatus s' (s'.maptbl lpn) = .valid ∧
      getRmapEnt spp s' (s'.maptbl lpn) = .ok lpn
  distinct : ∀ lpn < spp.ttPgs, ∀ lpn' < spp.ttPgs, mappedPpa (s'.maptbl lpn) = true →
    s'.maptbl lpn = s'.maptbl lpn' → lpn = lpn'
  emptied : ∀ lpn < spp.ttPgs, mappedPpa (s'.maptbl lpn) = true → (s'.maptbl lpn).blk ≠ v
  clean : ∀ ppa, validPpa spp ppa → ppa.blk = v → pageStatus s' ppa = .free
  eraseCnt : ∀ c < spp.nchs, ∀ l < spp.lunsPerCh, ∀ pl < spp.plsPerLun,
    (s'.ssd.blk ⟨c, l, pl, v⟩).eraseCnt = (s.ssd.blk ⟨c, l, pl, v⟩).eraseCnt + 1
  tail : ∃ front, s'.lm.freeLineList = front ++ [v]
  counters : (s'.lm.lines v).ipc = 0 ∧ (s'.lm.lines v).vpc = 0

theorem behind_end (g : Geometry spp) {a : Ppa} (ha : Page spp a) (hv : a.blk = v) :
    Behind spp v spp.flashpgsPerBlk 0 0 0 a := by
  refine ⟨hv, Or.inl ?_⟩
  have hp := ha.range.pg
  rw [g.blk_flash] at hp
  exact Nat.div_lt_of_lt_mul hp

theorem Mid.live_end {lpn : Nat} (m : Mid spp True s₀ v spp.flashpgsPerBlk 0 0 0 s) (g : Geometry spp)
    (hlpn : lpn < spp.ttPgs) (hmap : s.maptbl lpn ≠ unmappedPpa) :
    ValidPage spp s (s.maptbl lpn) ∧ (s.maptbl lpn).blk ≠ v ∧ s.rmap (pgidx spp (s.maptbl lpn)) = lpn := by
  obtain ⟨⟨hva, hn⟩, hback⟩ := (m.map trivial).forward lpn hlpn hmap
  exact ⟨hva, fun hv => hn (behind_end g hva.1 hv), hback⟩

section Collected

variable (k : PagesMoved spp s₀ v spp.flashpgsPerBlk 0 0 0 s) (hm : MapOk spp s₀ (ValidPage spp s₀))
  (g : Geometry spp)

include k hm g

theorem PagesMoved.stays_or_moved {lpn : Nat} (hlpn : lpn < spp.ttPgs) (hmap : s₀.maptbl lpn ≠ unmappedPpa) :
    (s₀.maptbl lpn).blk ≠ v ∧ s.maptbl lpn = s₀.maptbl lpn ∨
      (s₀.maptbl lpn).blk = v ∧ Page spp (s.maptbl lpn) ∧ pgStatus s₀ (s.maptbl lpn) = .free := by
  by_cases hv : (s₀.maptbl lpn).blk = v
  · obtain ⟨hp, _, hst⟩ := k.moved lpn hlpn hmap (behind_end g (hm.forward lpn hlpn hmap).1.1 hv)
    exact Or.inr ⟨hv, hp, hst⟩
  · exact Or.inl ⟨hv, k.stays lpn hlpn hmap (fun hb => hv hb.1)⟩

theorem PagesMoved.unmapped_iff (m : Mid spp True s₀ v spp.flashpgsPerBlk 0 0 0 s) {lpn : Nat}
    (hlpn : lpn < spp.ttPgs) : s.maptbl lpn = unmappedPpa ↔ s₀.maptbl lpn = unmappedPpa := by
  refine ⟨?_, m.unmapped trivial lpn hlpn⟩
  intro hun
  by_contra hmap
  rcases k.stays_or_moved hm g hlpn hmap with ⟨_, hsame⟩ | ⟨_, hp, _⟩
  · exact hmap (hsame.symm.trans hun)
  · exact hp.mapped hun

theorem PagesMoved.collected (m : Mid spp True s₀ v spp.flashpgsPerBlk 0 0 0 s) :
    LineCollected spp s₀ (lineFreed s v) v := by
  refine ⟨fun lpn hlpn => mappedPpa_eq (k.unmapped_iff hm g m hlpn), ?_, ?_, ?_, ?_, ?_, ?_, ⟨_, rfl⟩,
    (lineFreed_self s v).2, (lineFreed_self s v).1⟩
  · intro lpn hlpn hmap hv
    rcases k.stays_or_moved hm g hlpn (mappedPpa_iff.mp hmap) with ⟨_, hsame⟩ | ⟨hv', _⟩
    · exact hsame
    · exact absurd hv' hv
  · intro lpn hlpn hmap hv
    have hmap' := mt (k.unmapped_iff hm g m hlpn).mp (mappedPpa_iff.mp hmap)
    rcases k.stays_or_moved hm g hlpn (mappedPpa_iff.mp hmap) with ⟨hv', _⟩ | ⟨_, hp, hfree⟩
    · exact absurd hv hv'
    · obtain ⟨hva, hne, hback⟩ := m.live_end g hlpn hmap'
      refine ⟨hp.validPpa g, hne, (pageStatus_eq g (hp.validPpa g)).2.trans hfree,
        (pageStatus_eq g (hp.validPpa g)).2.trans hva.2, ?_⟩
      exact (getRmapEnt_page g hp).trans (congrArg _ hback)
  · intro lpn hlpn lpn' hlpn' hmap he
    exact (m.map trivial).inj hlpn hlpn' (mappedPpa_iff.mp hmap) he
  · intro lpn hlpn hmap
    exact (m.live_end g hlpn (mappedPpa_iff.mp hmap)).2.1
  · intro ppa hv hblk
    obtain ⟨hr, he⟩ := pageStatus_eq (s := lineFreed s v) g hv
    have hclean := m.clean ppa.ch hr.ch ppa.lun hr.lun (Or.inl (Nat.le_refl _))
    rw [he]
    unfold statusAt
    rw [hblk]
    exact hclean.free ppa.pg hr.pg
  · intro c hc l hl pl hpl
    rw [g.pls_eq] at hpl
    obtain rfl : pl = 0 := by omega
    exact k.erased c hc l hl (Or.inl (Nat.le_refl _))

end Collected

/-- With paired tables and a free line, a forced collection succeeds. -/
theorem doGc_collected {s₁ : ConvFtl} (g : Geometry spp) (hrated : Rated spp) (hs : Sound spp s none)
    (hm : MapOk spp s (ValidPage spp s)) (hfree : 0 < s.lm.freeLineCnt)
    (hsel : selectVictimLine spp s true = some (v, s₁)) :
    ∃ s', doGc clk spp cpp s true = .ok (s', 0) ∧ LineCollected spp s s' v := by
  rcases selectVictimLine_cases hs g true with
    ⟨hnone, _⟩ | ⟨v', s₁', hsome, hv, _, hid, hno, hfits, hrel, hwp, hlist, hs₁⟩
  · rw [hsel] at hnone
    cases hnone
  rw [hsel] at hsome
  cases hsome
  have hbudget : spp.pgsPerLine < budget spp s .gc := by
    obtain ⟨h, fill, i, _⟩ := hs
    have hlt := (i.wp .gc).index_lt g.wordlines
    rw [i.shelved.free_cnt] at hfree
    have hmul := Nat.mul_le_mul_right spp.pgsPerLine hfree
    unfold budget
    omega
  rw [doGc_selected g hsel hid hv]
  have m := Mid.begin (M := True) g (fun _ => hm) hrel hwp hlist hs₁
  have k : PagesMoved spp s v 0 0 0 0 (collecting s₁ v) := by
    refine ⟨?_, ?_, ?_, ?_⟩
    · intro a _ _
      exact Or.inl (hrel.statusAt _ _ _ _)
    · exact fun lpn _ _ _ => congrFun hrel.maptbl lpn
    · exact fun _ _ _ hb => absurd hb.2 passed_start
    · intro c' _ l' _ he
      have hpos := flashpgs_pos g
      unfold Erased at he
      omega
  have hsat : Sat (gcCopyBack clk spp cpp v (collecting s₁ v)) _ _ :=
    gcCopyBack_sat (moves_collect hm g) m k g hfits hno hv
  obtain ⟨t, hok, mt, kt⟩ := hsat.returns (by
    rintro e (he | he | he)
    · exact he hrated
    · exact he trivial
    · omega)
  rw [hok]
  exact ⟨_, rfl, kt.collected hm g mt⟩

section Run

variable {cfg : ConvConfig} {mem : Nat → Leftover} {size : Nat} {host : ConvNs → NvmevRequest → Prop}
  {ns : ConvNs} {ops : List InternalOp}

/-- Wherever a collection may begin, it collects the selected line, or changes nothing when there is
none. The tables must have started out blank. -/
theorem doGc_collects_line (hr : Reachable clk cfg mem size host spp ns ops)
    (hm : AllBlank spp mem cfg.ssdPartitions) (hrated : Rated spp) (hi : i < ns.nrParts)
    (hc : AtCollection clk cfg host spp ns i s) :
    (∀ v s₁, selectVictimLine spp s true = some (v, s₁) → 0 < s.lm.freeLineCnt →
      ∃ s', doGc clk spp (convInitParams cfg.toSsdConfig) s true = .ok (s', 0) ∧ LineCollected spp s s' v) ∧
    (selectVictimLine spp s true = none →
      doGc clk spp (convInitParams cfg.toSsdConfig) s true = .ok (s, -1)) := by
  refine ⟨?_, ?_⟩
  · intro v s₁ hsel hfree
    rcases Nat.eq_zero_or_pos spp.ttPgs with hz | hpos
    · obtain ⟨ssd, rfl, _⟩ := hc.slept hz hr hi
      cases hsel
    · have g := hr.geometry hpos
      obtain ⟨hs, hmap⟩ := hc.sound (hr.nsOk hpos).1 g hi
      exact doGc_collected g hrated hs (hmap hm) hfree hsel
  · intro hnone
    unfold doGc
    rw [hnone]

/-- Two writes to the same page of the second partition leave a victim there. -/
theorem twoPartitions_rewrite : ∃ spp ns o o' v s₁,
    Reachable (fun _ => 0) twoPartitions (fun _ => zeroLeftover) 90112 anyRequest spp ns [] ∧
    convProcNvmeIoCmd (fun _ => 0) spp (convInitParams twoPartitions.toSsdConfig) 0 ns (hostWrite 8 8)
      ⟨0, 0⟩ = .ok o ∧
    convProcNvmeIoCmd (fun _ => 0) spp (convInitParams twoPartitions.toSsdConfig) 0 o.ns (hostWrite 8 8)
      ⟨0, 0⟩ = .ok o' ∧
    spp.ttPgs ≤ 2^31 ∧ Rated spp ∧ o'.ns.nrParts = 2 ∧ 0 < (o'.ns.load 1).lm.freeLineCnt ∧
    selectVictimLine spp (o'.ns.load 1) true = some (v, s₁) :=
  ⟨_, _, _, _, _, _, Reachable.init rfl, rfl, rfl, by decide, ⟨by decide, by decide, by decide⟩, rfl,
    by decide, rfl⟩

theorem doGc_collects_line_rewrite : ∃ spp s s' v,
    doGc (fun _ => 0) spp (convInitParams twoPartitions.toSsdConfig) s true = .ok (s', 0) ∧
      LineCollected spp s s' v := by
  obtain ⟨spp, ns, o, o', v, s₁, hr, h, h', hpgs, hrated, hn, hfree, hsel⟩ := twoPartitions_rewrite
  have hr' := (hr.command trivial h).command trivial h'
  have hblank : AllBlank spp (fun _ => zeroLeftover) twoPartitions.ssdPartitions := by
    intro i _ lpn hlow hlt
    omega
  obtain ⟨s', hok, hcol⟩ := (doGc_collects_line hr' hblank hrated (by omega) .rest).1 v s₁ hsel hfree
  exact ⟨spp, o'.ns.load 1, s', v, hok, hcol⟩

/-- A table with old addresses at the end: after one line full of writes to page 0, the collection of a
line leaves a logical page in it. -/
theorem doGc_collects_line_fails : ∃ spp ns ops v s₁,
    Reachable (fun _ => 0) convSamsung970Pro (fun _ => staleLeftover) (2^44) alignedWrites spp ns ops ∧
    0 < ns.nrParts ∧ Rated spp ∧ selectVictimLine spp (ns.load 0) true = some (v, s₁) ∧
    0 < (ns.load 0).lm.freeLineCnt ∧
    ¬ ∃ s', doGc (fun _ => 0) spp (convInitParams convSamsung970Pro.toSsdConfig) (ns.load 0) true =
      .ok (s', 0) ∧ LineCollected spp (ns.load 0) s' v := by
  obtain ⟨spp, hspp, hl, hblks, hline, htt, hone, hfits, hrated⟩ := pro_16TiB
  have hinit := convInitNamespace_eq hspp hl (by omega) (fun _ => staleLeftover)
  have hf := convInitNamespace_ok hinit
  have hpos : 0 < spp.ttPgs := by omega
  have g := hf.derived.geometry hf.lines hpos
  have hpgsz := hf.derived.pgsz
  obtain ⟨k₀, hbud₀⟩ := Fresh.rewriting (fun _ => 0) hinit hpos rfl (by
    rw [hone, hpgsz]
    decide)
  rw [hblks, hline] at hbud₀
  obtain ⟨b, k, hbud⟩ := k₀.steps g hrated hpos hf.derived.secsPerPg hpgsz (2^19) (by
    dsimp only
    omega) (fun _ hs _ _ => hs.placeFits hfits .user)
  dsimp only at hbud
  have hfree : (b.ns.load 0).lm.freeLineList.length = 8189 := by
    have hlt := k.only.sound.wpIndex_lt g .user
    rw [hbud₀] at hbud
    unfold budget at hbud
    rw [hline] at hbud hlt
    omega
  obtain ⟨v, s₁, hsel⟩ := k.only.victim g (by omega) (by omega)
  refine ⟨spp, b.ns, b.pending, v, s₁, k.run.reachable, ?_, hrated, hsel, ?_, ?_⟩
  · have hn := k.parts
    omega
  · rw [k.only.sound.free_cnt]
    omega
  rintro ⟨s', hok, hcol⟩
  obtain ⟨hv, hkept⟩ := k.only.stale_kept g hsel hok (show 2^31 + v ≠ 0 by omega)
  rw [hf.load 0 hf.parts_pos] at hkept
  have hent : (freshFtl spp staleLeftover (ssdInit spp)).maptbl (2^31 + v) = pageAt 0 0 v 0 := by
    change initMaptbl spp staleLeftover (2^31 + v) = _
    unfold initMaptbl
    rw [if_neg (by omega), staleLeftover_maptbl, show (2^31 + v) % 2^16 = v by omega]
  have hmap := hkept.trans hent
  refine hcol.emptied (2^31 + v) (by omega) ?_ ?_
  · rw [hmap]
    exact mappedPpa_pageAt 0 0 v 0
  · rw [hmap]
    rfl

end Run

end NVMeVirt
