import NVMeVirt.FtlStore

/-!
# Wear of the flash

A collection erases the blocks of its victim line once, on every die, and counts as one in `gc_cnt`.
Nothing else erases. So the dies of a line wear alike, and the counters of the lines and `gc_cnt` tell
how many pages have been programmed, for the host and by the collector.
-/

namespace NVMeVirt
set_option autoImplicit false
open Outcome Census FlashStore Finset

universe u
variable {ν : Type u} {clk : Nat → Nat} {spp : SsdParams} {cpp : ConvParams} {s s' s₀ : ConvFtl} {v : Nat}

/-- All dies have erased their block of a line equally often, and as often as lines were collected. -/
structure EvenWear (spp : SsdParams) (s : ConvFtl) : Prop where
  even : ∀ c < spp.nchs, ∀ l < spp.lunsPerCh, ∀ x < spp.blksPerPl,
    (blockAt s c l x).eraseCnt = (blockAt s 0 0 x).eraseCnt
  total : s.gcCnt = ∑ x ∈ range spp.blksPerPl, (blockAt s 0 0 x).eraseCnt

theorem EvenWear.congr (k : EvenWear spp s) (h : SameWear s s') : EvenWear spp s' := by
  have he : ∀ c l x, (blockAt s' c l x).eraseCnt = (blockAt s c l x).eraseCnt := fun c l x => h.erases _
  refine ⟨?_, ?_⟩
  · intro c hc l hl x hx
    rw [he, he]
    exact k.even c hc l hl x hx
  · rw [h.collections, k.total]
    exact sum_congr rfl (fun x _ => (he 0 0 x).symm)

theorem sameWear_of_blk {ssd : Ssd} (hblk : ssd.blk = s.ssd.blk) : SameWear s { s with ssd := ssd } :=
  ⟨fun a => congrArg (fun b => (b a).eraseCnt) hblk, rfl⟩

theorem Slept.sameWear (h : Slept s s') : SameWear s s' := by
  obtain ⟨ssd, rfl, hblk⟩ := h
  exact sameWear_of_blk hblk

theorem convWritePage_wear {lpn : Nat} {ppa : Ppa} (h : convWritePage spp s lpn = .ok (s', ppa)) :
    SameWear s s' := by
  unfold convWritePage at h
  obtain ⟨old, _, h⟩ := bind_eq_ok.mp h
  obtain ⟨s₁, hdrop, h⟩ := bind_eq_ok.mp h
  exact (dropOldPage_wear hdrop).trans (writeNewPage_wear h)

/-- The collection of line `v` of `s₀` has erased the blocks of the dies that are done. -/
structure PartlyErased (spp : SsdParams) (s₀ : ConvFtl) (v f c l : Nat) (s : ConvFtl) : Prop where
  erased : ∀ c' < spp.nchs, ∀ l' < spp.lunsPerCh, Erased spp f c l c' l' →
    (blockAt s c' l' v).eraseCnt = (blockAt s₀ c' l' v).eraseCnt + 1
  kept : ∀ c' < spp.nchs, ∀ l' < spp.lunsPerCh, ∀ x, (x = v → ¬ Erased spp f c l c' l') →
    (blockAt s c' l' x).eraseCnt = (blockAt s₀ c' l' x).eraseCnt
  collections : s.gcCnt = s₀.gcCnt

theorem PartlyErased.congr {f c l : Nat} (k : PartlyErased spp s₀ v f c l s) (h : SameWear s s') :
    PartlyErased spp s₀ v f c l s' := by
  refine ⟨?_, ?_, h.collections.trans k.collections⟩
  · exact fun c' hc' l' hl' he => (h.erases _).trans (k.erased c' hc' l' hl' he)
  · exact fun c' hc' l' hl' x he => (h.erases _).trans (k.kept c' hc' l' hl' x he)

theorem PartlyErased.at_position {f c l f' c' l' : Nat} (k : PartlyErased spp s₀ v f c l s)
    (her : ∀ c₁ < spp.nchs, ∀ l₁ < spp.lunsPerCh, (Erased spp f' c' l' c₁ l₁ ↔ Erased spp f c l c₁ l₁)) :
    PartlyErased spp s₀ v f' c' l' s := by
  refine ⟨?_, ?_, k.collections⟩
  · exact fun c₁ hc₁ l₁ hl₁ he => k.erased c₁ hc₁ l₁ hl₁ ((her c₁ hc₁ l₁ hl₁).mp he)
  · exact fun c₁ hc₁ l₁ hl₁ x hne => k.kept c₁ hc₁ l₁ hl₁ x (fun hx he => hne hx ((her c₁ hc₁ l₁ hl₁).mpr he))

theorem PartlyErased.erase {f c l : Nat} (k : PartlyErased spp s₀ v f c l s) (hf : f + 1 = spp.flashpgsPerBlk)
    (p : Nat) :
    PartlyErased spp s₀ v f c (l+1) (s.setBlk (pageAt c l v p) (erasedBlock spp (blockAt s c l v))) := by
  have hput := blockPut_setBlk s c l v p (erasedBlock spp (blockAt s c l v))
  have her : ∀ c₁ l₁, Erased spp f c (l+1) c₁ l₁ ↔ Erased spp f c l c₁ l₁ ∨ c₁ = c ∧ l₁ = l := by
    intro c₁ l₁
    unfold Erased
    omega
  have hnot : ¬ Erased spp f c l c l := by
    unfold Erased
    omega
  refine ⟨?_, ?_, k.collections⟩
  · intro c₁ hc₁ l₁ hl₁ he
    by_cases hk : c₁ = c ∧ l₁ = l
    · obtain ⟨rfl, rfl⟩ := hk
      rw [hput.same]
      exact congrArg (· + 1) (k.kept c₁ hc₁ l₁ hl₁ v (fun _ => hnot))
    · rw [hput.other (fun hc => hk ⟨hc.1, hc.2.1⟩)]
      exact k.erased c₁ hc₁ l₁ hl₁ (((her c₁ l₁).mp he).resolve_right hk)
  · intro c₁ hc₁ l₁ hl₁ x hne
    rw [hput.other]
    · exact k.kept c₁ hc₁ l₁ hl₁ x (fun hx he => hne hx ((her c₁ l₁).mpr (Or.inl he)))
    · rintro ⟨hc, hl, hx⟩
      exact hne hx ((her c₁ l₁).mpr (Or.inr ⟨hc, hl⟩))

theorem wears_collect (s₀' : ConvFtl) :
    CollectRule clk spp False s₀ v (fun f c l _ s => PartlyErased spp s₀' v f c l s) := by
  refine ⟨?_, ?_, fun _ k _ _ => k, ?_, fun k => k.congr ⟨fun _ => rfl, rfl⟩, ?_, ?_, ?_⟩
  · intro f c l i s ncmd ssd t _ k _ hok
    exact k.congr (sameWear_of_blk ((ssdAdvanceNand_blk clk spp s.ssd ncmd).of_ok hok))
  · intro f c l i s s' c' l' x' p' _ k _ _ _ heq _ _
    exact k.congr (writeNewPage_wear heq)
  · intro f c l s _ k hf _ _
    exact k.erase hf _
  · intro f c l s k hf
    refine k.at_position (fun c₁ _ l₁ _ => ?_)
    unfold Erased
    omega
  · intro f c s k
    refine k.at_position (fun c₁ _ l₁ hl₁ => ?_)
    unfold Erased
    omega
  · intro f s k hf
    refine k.at_position (fun c₁ hc₁ l₁ _ => ?_)
    unfold Erased
    omega

theorem selectVictimLine_gcCnt {force : Bool} (h : selectVictimLine spp s force = some (v, s')) :
    s'.gcCnt = s.gcCnt := by
  unfold selectVictimLine at h
  split at h
  · cases h
  split at h
  · cases h
  split at h
  · cases h
  · cases h
    rfl

theorem doGc_wear {force : Bool} {r : Int} (k : EvenWear spp s) (g : Geometry spp) (hs : Sound spp s none)
    (h : doGc clk spp cpp s force = .ok (s', r)) : EvenWear spp s' := by
  rcases selectVictimLine_cases hs g force with
    ⟨hnone, _⟩ | ⟨v, s₁, hsel, hv, _, hid, hno, hfits, hrel, hwp, hfree, hs₁⟩
  · unfold doGc at h
    rw [hnone] at h
    cases h
    exact k
  rw [doGc_selected g hsel hid hv] at h
  obtain ⟨t, hcopy, h⟩ := bind_eq_ok.mp h
  cases h
  have m := Mid.begin (M := False) g (fun hf => hf.elim) hrel hwp hfree hs₁
  have hstart : PartlyErased spp (collecting s₁ v) v 0 0 0 (collecting s₁ v) := by
    refine ⟨?_, fun _ _ _ _ _ _ => rfl, rfl⟩
    intro c' _ l' _ he
    have hpos := flashpgs_pos g
    unfold Erased at he
    omega
  obtain ⟨mt, kt⟩ := (gcCopyBack_sat (wears_collect _) m hstart g hfits hno hv).of_ok hcopy
  have hold : ∀ c l x, blockAt (collecting s₁ v) c l x = blockAt s c l x := fun c l x => hrel.blockAt c l x
  have hline : ∀ c < spp.nchs, ∀ l < spp.lunsPerCh, ∀ x,
      (blockAt (lineFreed t v) c l x).eraseCnt = (blockAt s c l x).eraseCnt + if x = v then 1 else 0 := by
    intro c hc l hl x
    split
    · rename_i hx
      rw [hx]
      exact (kt.erased c hc l hl (Or.inl (Nat.le_refl _))).trans (by rw [hold])
    · rename_i hx
      exact (kt.kept c hc l hl x (fun he => absurd he hx)).trans (by rw [hold]; rfl)
  refine ⟨?_, ?_⟩
  · intro c hc l hl x hx
    rw [hline c hc l hl x, hline 0 g.nchs_pos 0 g.luns_pos x, k.even c hc l hl x hx]
  · simp only [hline 0 g.nchs_pos 0 g.luns_pos, sum_add_distrib]
    rw [← k.total, sum_ite_eq', if_pos (mem_range.mpr hv)]
    exact kt.collections.trans (congrArg (· + 1) (selectVictimLine_gcCnt hsel))

theorem gcWhileHigh_wear {fuel : Nat} (k : EvenWear spp s) (g : Geometry spp) (hs : Sound spp s none)
    (h : gcWhileHigh clk spp cpp fuel s = .ok s') : EvenWear spp s' := by
  induction fuel generalizing s with
  | zero =>
    unfold gcWhileHigh at h
    split at h
    · cases h
    · cases h
      exact k
  | succ fuel ih =>
    unfold gcWhileHigh at h
    split at h
    · obtain ⟨⟨t, r⟩, hgc, hrest⟩ := bind_eq_ok.mp h
      have kt := doGc_wear k g hs hgc
      have hst : Sound spp t none := by
        rcases (doGc_sat hs g (M := False) (fun hf => hf.elim) true).of_ok hgc with ⟨rfl, _⟩ | ⟨v, _, _, hcol⟩
        · exact hs
        · exact hcol.sound
      exact ih kt hst hrest
    · cases h
      exact k

variable {ns ns' : ConvNs} {req : NvmevRequest} {ret ret' : NvmevResult} {ops : List InternalOp} {M : Prop}

def NsSameWear (ns ns' : ConvNs) : Prop := ns'.nrParts = ns.nrParts ∧ ∀ i, SameWear (ns.load i) (ns'.load i)

theorem NsSameWear.trans {ns'' : ConvNs} (h : NsSameWear ns ns') (h' : NsSameWear ns' ns'') :
    NsSameWear ns ns'' := ⟨h'.1.trans h.1, fun i => (h.2 i).trans (h'.2 i)⟩

theorem Idle.sameWear (h : Idle ns ns') : NsSameWear ns ns' :=
  ⟨h.shell.nrParts, fun i => (h.slept i).sameWear⟩

theorem SameWear.store {part : Nat} {f : ConvFtl} (h : SameWear (ns.load part) f) :
    NsSameWear ns (ns.store part f) := by
  refine ⟨rfl, fun i => ?_⟩
  by_cases he : i = part
  · rw [he, load_store_same]
    exact h
  · rw [load_store_other ns f he]
    exact ⟨fun _ => rfl, rfl⟩

theorem writeOneLpn_wear {stime lpn : Nat} {w w' : WriteState}
    (h : writeOneLpn clk spp req stime lpn w = .ok w') : NsSameWear w.ns w'.ns := by
  unfold writeOneLpn at h
  obtain ⟨⟨f, ppa⟩, hpage, h⟩ := bind_eq_ok.mp h
  have hf := convWritePage_wear hpage
  dsimp only at h
  split at h
  · obtain ⟨⟨ssd, t⟩, hnand, h⟩ := bind_eq_ok.mp h
    cases h
    exact (hf.trans (sameWear_of_blk ((ssdAdvanceNand_blk clk spp f.ssd _).of_ok hnand))).store
  · cases h
    exact hf.store

theorem convWrite_wear (h : convWrite clk spp ns req = .ok (some (ns', ret, ops))) : NsSameWear ns ns' := by
  unfold convWrite at h
  dsimp only at h
  split at h
  · cases h
  split at h
  · cases h
  split at h
  · cases h
  obtain ⟨⟨ssd, t⟩, hxfer, h⟩ := bind_eq_ok.mp h
  obtain ⟨w, hw, h⟩ := bind_eq_ok.mp h
  cases h
  unfold ssdAdvanceWriteBuffer ssdAdvancePcie at hxfer
  obtain ⟨⟨model, time⟩, _, hxfer⟩ := bind_eq_ok.mp hxfer
  cases hxfer
  refine upto_ok (P := fun w => NsSameWear ns w.ns) hw ?_
    (fun _ _ _ ht hone => ht.trans (writeOneLpn_wear hone))
  have hbuffer : NsSameWear ns { ns with writeBuffer := _ } := ⟨rfl, fun i => ⟨fun _ => rfl, rfl⟩⟩
  exact hbuffer.trans (SameWear.store ⟨fun _ => rfl, rfl⟩)

def NsEvenWear (spp : SsdParams) (ns : ConvNs) : Prop := ∀ i < ns.nrParts, EvenWear spp (ns.load i)

theorem NsEvenWear.congr (k : NsEvenWear spp ns) (h : NsSameWear ns ns') : NsEvenWear spp ns' :=
  fun i hi => (k i (h.1 ▸ hi)).congr (h.2 i)

theorem convDispatch_wear (k : NsOk spp M ns) (g : Geometry spp)
    (h : convDispatch clk spp ns req ret = .ok (some (ns', ret', ops))) : NsSameWear ns ns' := by
  rcases (convDispatch_sat k g req ret).of_ok h ns' ret' ops rfl with ⟨_, _, hid, _⟩ | ⟨hop, _⟩
  · exact hid.sameWear
  · unfold convDispatch at h
    rw [hop] at h
    exact convWrite_wear h

theorem convProcNvmeIoCmd_wear {fuel : Nat} {o : ProcOutcome} (kw : NsEvenWear spp ns) (k : NsOk spp M ns)
    (g : Geometry spp) (h : convProcNvmeIoCmd clk spp cpp fuel ns req ret = .ok o) : NsEvenWear spp o.ns := by
  rcases convProcNvmeIoCmd_cases h with ⟨_, rfl⟩ | ⟨ns₁, ret', ops, f, hd, hf, rfl⟩
  · exact kw
  have kw₁ := kw.congr (convDispatch_wear k g hd)
  have k₁ := ((convDispatch_sat k g req ret).of_ok hd ns₁ ret' ops rfl).nsOk
  have hf' := gcWhileHigh_wear (kw₁ 0 k₁.parts_pos) g (k₁.sound 0 k₁.parts_pos) hf
  intro i hi
  by_cases he : i = 0
  · rw [he, load_store_same]
    exact hf'
  · rw [load_store_other ns₁ f he]
    exact (kw₁ i hi).congr ⟨fun _ => rfl, rfl⟩

section Run

variable {cfg : ConvConfig} {mem : Nat → Leftover} {size : Nat} {host : ConvNs → NvmevRequest → Prop}
  {hist : List (Nat × ν)}

theorem freshFtl_even (mem : Leftover) : EvenWear spp (freshFtl spp mem (ssdInit spp)) := by
  refine ⟨fun _ _ _ _ _ _ => rfl, ?_⟩
  exact (sum_eq_zero (fun _ _ => rfl)).symm

theorem Reachable.evenWear (hr : Reachable clk cfg mem size host spp ns ops) : NsEvenWear spp ns := by
  rcases Nat.eq_zero_or_pos spp.ttPgs with hz | hpos
  · obtain ⟨_, _, _, hall⟩ := hr.frozen hz
    exact fun i hi => (freshFtl_even (mem i)).congr (hall i hi).sameWear
  · have g := hr.geometry hpos
    induction hr with
    | init h =>
      have hf := convInitNamespace_ok h
      intro i hi
      rw [hf.load i hi]
      exact freshFtl_even (mem i)
    | command hr _ h ih => exact convProcNvmeIoCmd_wear ih (hr.nsOk hpos).1 g h
    | release _ _ ih => exact ih

def flashPageEquiv (spp : SsdParams) :
    Fin spp.nchs × Fin spp.lunsPerCh × Fin spp.blksPerPl × Fin spp.pgsPerBlk ≃ FlashPage spp where
  toFun a := ⟨pageAt a.1 a.2.1 a.2.2.1 a.2.2.2, InRange.page ⟨a.1.2, a.2.1.2, a.2.2.1.2, a.2.2.2.2⟩⟩
  invFun a :=
    (⟨a.1.ch, a.2.range.ch⟩, ⟨a.1.lun, a.2.range.lun⟩, ⟨a.1.blk, a.2.range.blk⟩, ⟨a.1.pg, a.2.range.pg⟩)
  left_inv _ := rfl
  right_inv a := Subtype.ext a.2.eq_pageAt.symm

instance : Fintype (FlashPage spp) := Fintype.ofEquiv _ (flashPageEquiv spp)

/-- Adding up over the pages is adding up over lines, dies and pages of a block. -/
theorem sum_flashPage (f : Nat → Nat → Nat → Nat → Nat) :
    ∑ a : FlashPage spp, f a.1.ch a.1.lun a.1.blk a.1.pg =
      ∑ x ∈ range spp.blksPerPl,
        grid spp.nchs spp.lunsPerCh (fun c l => ∑ p ∈ range spp.pgsPerBlk, f c l x p) := by
  calc ∑ a : FlashPage spp, f a.1.ch a.1.lun a.1.blk a.1.pg
      = ∑ a, f ((flashPageEquiv spp) a).1.ch _ _ _ := ((flashPageEquiv spp).sum_comp _).symm
    _ = ∑ c : Fin spp.nchs, ∑ l : Fin spp.lunsPerCh, ∑ x : Fin spp.blksPerPl, ∑ p : Fin spp.pgsPerBlk,
        f c l x p := by
      simp only [Fintype.sum_prod_type]
      rfl
    _ = ∑ c : Fin spp.nchs, ∑ x : Fin spp.blksPerPl, ∑ l : Fin spp.lunsPerCh, ∑ p : Fin spp.pgsPerBlk,
        f c l x p := sum_congr rfl (fun c _ => sum_comm)
    _ = ∑ x : Fin spp.blksPerPl, ∑ c : Fin spp.nchs, ∑ l : Fin spp.lunsPerCh, ∑ p : Fin spp.pgsPerBlk,
        f c l x p := sum_comm
    _ = _ := by simp only [grid, sum_range]

/-- 1 for a page that has been programmed since the last erase. -/
def usedPage (s : ConvFtl) (c l x p : Nat) : Nat := if statusAt s c l x p = .free then 0 else 1

theorem BlockCensus.used {c l x : Nat} (h : BlockCensus spp (blockAt s c l x)) :
    ∑ p ∈ range spp.pgsPerBlk, usedPage s c l x p = (blockAt s c l x).vpc + (blockAt s c l x).ipc := by
  rw [h.vpc, h.ipc, tally_eq_sum, tally_eq_sum, ← sum_add_distrib]
  apply sum_congr rfl
  intro p _
  unfold usedPage statusAt hasStatus
  cases ((blockAt s c l x).pg p).status <;> rfl

theorem sum_usedPage (hs : Sound spp s none) (x : Nat) (hx : x < spp.blksPerPl) :
    grid spp.nchs spp.lunsPerCh (fun c l => ∑ p ∈ range spp.pgsPerBlk, usedPage s c l x p) =
      (s.lm.lines x).vpc + (s.lm.lines x).ipc := by
  obtain ⟨h, fill, i, _, hheld⟩ := hs
  have hc := i.contents x hx (fun he => nomatch (hheld x).mp he)
  rw [hc.vpc, hc.ipc, ← grid_add]
  exact grid_congr (fun c hc' l hl => (hc.census c hc' l hl).used)

variable {trace : FlashTrace spp ν} {st : FlashState spp ν}

theorem ShowsStore.programs (k : ShowsStore s st) (hrun : FlashStore.Run (flashLayout spp) blank trace st)
    (a : FlashPage spp) :
    FlashStore.programs a trace =
      (s.ssd.blk a.1.addr).eraseCnt + usedPage s a.1.ch a.1.lun a.1.blk a.1.pg := by
  rw [hrun.programs_eq a]
  change st.erases a.1.addr + _ = _
  rw [k.erases a]
  congr 1
  unfold usedPage
  split
  · rename_i hf
    rw [(k.clean a).mpr hf]
    rfl
  · rename_i hf
    exact inUse_of_ne_none (fun hc => hf ((k.clean a).mp hc))

theorem ShowsStore.total (k : ShowsStore s st) (hrun : FlashStore.Run (flashLayout spp) blank trace st)
    (g : Geometry spp) (hs : Sound spp s none) (hw : EvenWear spp s) :
    (puts trace).length + moves trace = s.gcCnt * spp.pgsPerLine +
      ∑ x ∈ range spp.blksPerPl, ((s.lm.lines x).vpc + (s.lm.lines x).ipc) := by
  rw [← countP_programs, ← sum_programs, hw.total, sum_mul, ← sum_add_distrib]
  calc ∑ a : FlashPage spp, FlashStore.programs a trace
      = ∑ a : FlashPage spp, ((blockAt s a.1.ch a.1.lun a.1.blk).eraseCnt +
          usedPage s a.1.ch a.1.lun a.1.blk a.1.pg) := by
        apply sum_congr rfl
        intro a _
        rw [k.programs hrun a, a.2.addr_eq]
        rfl
    _ = _ := sum_flashPage (fun c l x p => (blockAt s c l x).eraseCnt + usedPage s c l x p)
    _ = _ := by
        apply sum_congr rfl
        intro x hx
        have hx := mem_range.mp hx
        simp only [sum_add_distrib, sum_const, card_range, smul_eq_mul]
        rw [grid_add, sum_usedPage hs x hx]
        congr 1
        -- every die has worn as the first one
        rw [grid_congr (fun c hc l hl => congrArg (spp.pgsPerBlk * ·) (hw.even c hc l hl x hx)), grid_const,
          g.line_eq]
        ring

/-- The dies of a line have erased their blocks equally often, and the erases of the lines
add up to `gc_cnt`. -/
theorem dies_wear_evenly (hr : Reachable clk cfg mem size host spp ns ops) {i : Nat} (hi : i < ns.nrParts) :
    (∀ c < spp.nchs, ∀ l < spp.lunsPerCh, ∀ x < spp.blksPerPl,
      ((ns.load i).ssd.blk ⟨c, l, 0, x⟩).eraseCnt = ((ns.load i).ssd.blk ⟨0, 0, 0, x⟩).eraseCnt) ∧
    (ns.load i).gcCnt = ∑ x ∈ range spp.blksPerPl, ((ns.load i).ssd.blk ⟨0, 0, 0, x⟩).eraseCnt :=
  ⟨(hr.evenWear i hi).even, (hr.evenWear i hi).total⟩

/-- The counters of the lines and `gc_cnt` tell how many pages the host and the collector have programmed. -/
theorem pages_programmed (hr : DataRun clk cfg mem size host spp ns ops hist)
    (hblank : AllBlank spp mem cfg.ssdPartitions) {i : Nat} (hi : i < ns.nrParts) :
    ∃ (trace : FlashTrace spp ν) (st : FlashState spp ν),
      FlashStore.Run (flashLayout spp) blank trace st ∧ puts trace = partPairs ns.nrParts i hist ∧
      ShowsStore (ns.load i) st ∧
      (∀ a : FlashPage spp, FlashStore.programs a trace = ((ns.load i).ssd.blk a.1.addr).eraseCnt +
        if pgStatus (ns.load i) a.1 = .free then 0 else 1) ∧
      (puts trace).length + moves trace = (ns.load i).gcCnt * spp.pgsPerLine +
        ∑ x ∈ range spp.blksPerPl, (((ns.load i).lm.lines x).vpc + ((ns.load i).lm.lines x).ipc) := by
  obtain ⟨trace, st, hrun, hputs, k⟩ := hr.stored hblank i hi
  refine ⟨trace, st, hrun, hputs, k, k.programs hrun, ?_⟩
  rcases Nat.eq_zero_or_pos spp.ttPgs with hz | hpos
  · -- without pages nothing can be programmed, and no line has been collected
    obtain ⟨ns₀, hf⟩ := hr.reachable.fresh
    obtain ⟨ssd, he, _⟩ := (hr.reachable.frozen hz).2.2.2 i hi
    have hb := (hf.derived.no_pages hf.lines hz).1
    have : IsEmpty (FlashPage spp) := ⟨fun a => absurd a.2.range.pg (by omega)⟩
    rw [← countP_programs, ← sum_programs, Fintype.sum_empty, he]
    change 0 = 0 * _ + ∑ x ∈ _, (0 + 0)
    simp
  · exact k.total hrun (hr.reachable.geometry hpos) ((hr.reachable.nsOk hpos).1.sound i hi)
      (hr.reachable.evenWear i hi)

/-- `twoPartitions` with three more lines. -/
def fourteenLines : ConvConfig := { twoPartitions with
  blksPerPln := 14
  blks_pos := by decide
  blks_le := by decide }

theorem fourteenLines_collected : ∃ spp ns o₁ o₂ o₃ o₄,
    convInitNamespace fourteenLines.toSsdConfig (fun _ => zeroLeftover) 114688 = .ok (spp, ns) ∧
    convProcNvmeIoCmd (fun _ => 0) spp (convInitParams fourteenLines.toSsdConfig) 1 ns (hostWrite 0 8)
      ⟨0, 0⟩ = .ok o₁ ∧
    convProcNvmeIoCmd (fun _ => 0) spp (convInitParams fourteenLines.toSsdConfig) 1 o₁.ns (hostWrite 0 8)
      ⟨0, 0⟩ = .ok o₂ ∧
    convProcNvmeIoCmd (fun _ => 0) spp (convInitParams fourteenLines.toSsdConfig) 1 o₂.ns (hostWrite 0 8)
      ⟨0, 0⟩ = .ok o₃ ∧
    convProcNvmeIoCmd (fun _ => 0) spp (convInitParams fourteenLines.toSsdConfig) 1 o₃.ns (hostWrite 0 8)
      ⟨0, 0⟩ = .ok o₄ ∧
    spp.ttPgs = 14 ∧ spp.blksPerPl = 14 ∧ o₄.ns.nrParts = 2 ∧ (o₄.ns.load 0).gcCnt = 1 ∧ o₄.accepted = true :=
  ⟨_, _, _, _, _, _, rfl, rfl, rfl, rfl, rfl, rfl, rfl, rfl, rfl, rfl⟩

theorem dies_wear_evenly_collected : ∃ spp ns ops,
    Reachable (fun _ => 0) fourteenLines (fun _ => zeroLeftover)
    114688 anyRequest spp ns ops ∧
    ∑ x ∈ range 14, ((ns.load 0).ssd.blk ⟨0, 0, 0, x⟩).eraseCnt = 1 := by
  obtain ⟨spp, ns, o₁, o₂, o₃, o₄, hinit, h₁, h₂, h₃, h₄, _, hblks, hn, hgc, _⟩ := fourteenLines_collected
  have hr₀ : Reachable (fun _ => 0) fourteenLines (fun _ => zeroLeftover) 114688 anyRequest spp _ _ :=
    .init hinit
  have hr := (((hr₀.command trivial h₁).command trivial h₂).command trivial h₃).command trivial h₄
  refine ⟨spp, o₄.ns, _, hr, ?_⟩
  rw [← hblks, ← hgc]
  exact (dies_wear_evenly hr (by omega)).2.symm

theorem pages_programmed_collected : ∃ spp ns ops, ∃ hist : List (Nat × Nat), ∃ trace : FlashTrace spp Nat,
    DataRun (fun _ => 0) fourteenLines (fun _ => zeroLeftover) 114688 anyRequest spp ns ops hist ∧
    puts trace = partPairs 2 0 hist ∧
    (puts trace).length + moves trace = 1 * spp.pgsPerLine +
      ∑ x ∈ range spp.blksPerPl, (((ns.load 0).lm.lines x).vpc + ((ns.load 0).lm.lines x).ipc) := by
  obtain ⟨spp, ns, o₁, o₂, o₃, o₄, hinit, h₁, h₂, h₃, h₄, htt, _, hn, hgc, _⟩ := fourteenLines_collected
  have hr₀ : DataRun (fun _ => 0) fourteenLines (fun _ => zeroLeftover) 114688 anyRequest spp _ _
    ([] : List (Nat × Nat)) := .init hinit
  have hr := (((hr₀.command (fun _ => 1) trivial h₁).command (fun _ => 2) trivial h₂).command (fun _ => 3)
    trivial h₃).command (fun _ => 4) trivial h₄
  have hblank : AllBlank spp (fun _ => zeroLeftover) fourteenLines.ssdPartitions := by
    intro i _ lpn hlow hlt
    omega
  obtain ⟨trace, st, _, hputs, _, _, htotal⟩ := pages_programmed hr hblank (i := 0) (by omega)
  refine ⟨spp, o₄.ns, _, _, trace, hr, hn ▸ hputs, ?_⟩
  rw [← hgc]
  exact htotal

end Run

end NVMeVirt
