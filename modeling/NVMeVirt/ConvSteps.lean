import NVMeVirt.ConvRun

/-!
# What a command does to a partition

Every command of a namespace is, for each partition, a run of the steps below: NAND commands,
which the run logs with the state before and after them, and steps that leave the dies alone.
-/

namespace NVMeVirt
set_option autoImplicit false
open Outcome

/-- A NAND command that has been issued, and the completion time it came back with. -/
structure NandEvent where
  before : Ssd
  ncmd : NandCmd
  after : Ssd
  done : Nat

inductive FtlStep (spp : SsdParams) : ConvFtl → ConvFtl → Prop where
  /-- The shared link and clock as other partitions and the write buffer leave them. -/
  | link {s : ConvFtl} (pcie : ChannelModel) (ticks : Nat) :
      FtlStep spp s { s with ssd := { s.ssd with pcie := pcie, ticks := ticks } }
  | drop {s s' : ConvFtl} {lpn : Nat} : Sound spp s none → lpn < spp.ttPgs →
      dropOldPage spp s (s.maptbl lpn) = .ok s' → FtlStep spp s s'
  | write {s s' : ConvFtl} {io : IoType} {lpn : Nat} {ppa : Ppa} {held : Option Nat} :
      Sound spp s held → writeNewPage spp s io lpn = .ok (s', ppa) → FtlStep spp s s'
  | select {s s' : ConvFtl} {force : Bool} {v : Nat} : Sound spp s none →
      selectVictimLine spp s force = some (v, s') → FtlStep spp s s'
  | recount {s : ConvFtl} (wfc : WriteFlowControl) (n : Nat) :
      FtlStep spp s { s with wfc := wfc, gcCnt := n }
  | erase {s : ConvFtl} {v : Nat} (c l p : Nat) : Sound spp s (some v) →
      FtlStep spp s (s.setBlk (pageAt c l v p) (erasedBlock spp (blockAt s c l v)))
  | endtime {s : ConvFtl} (ppa : Ppa) (t : Nat) :
      FtlStep spp s { s with ssd := s.ssd.setLun ppa { s.ssd.getLun ppa with gcEndtime := t } }
  | free {s : ConvFtl} {v : Nat} : Sound spp s (some v) → v < spp.blksPerPl →
      FtlStep spp s (lineFreed s v)

inductive FtlRun (clk : Nat → Nat) (spp : SsdParams) (s₀ : ConvFtl) : List NandEvent → ConvFtl → Prop where
  | start : FtlRun clk spp s₀ [] s₀
  | nand {log : List NandEvent} {s : ConvFtl} {ncmd : NandCmd} {ssd : Ssd} {t : Nat} :
      FtlRun clk spp s₀ log s → Commanded spp ncmd → ssdAdvanceNand clk spp s.ssd ncmd = .ok (ssd, t) →
      FtlRun clk spp s₀ (⟨s.ssd, ncmd, ssd, t⟩ :: log) { s with ssd := ssd }
  | step {log : List NandEvent} {s s' : ConvFtl} :
      FtlRun clk spp s₀ log s → FtlStep spp s s' → FtlRun clk spp s₀ log s'

variable {clk : Nat → Nat} {spp : SsdParams} {cpp : ConvParams} {M : Prop} {ns ns' : ConvNs}
  {s₀ s s' : ConvFtl} {log log' : List NandEvent}

theorem FtlRun.trans (h : FtlRun clk spp s₀ log s) (h' : FtlRun clk spp s log' s') :
    FtlRun clk spp s₀ (log' ++ log) s' := by
  induction h' with
  | start => exact h
  | nand _ hcmd hok ih => exact ih.nand hcmd hok
  | step _ hs ih => exact ih.step hs

theorem FtlRun.keeps {P : ConvFtl → Prop} (run : FtlRun clk spp s₀ log s) (start : P s₀)
    (nand : ∀ {s ncmd ssd t}, P s → Commanded spp ncmd →
      ssdAdvanceNand clk spp s.ssd ncmd = .ok (ssd, t) → P { s with ssd := ssd })
    (step : ∀ {s s'}, P s → FtlStep spp s s' → P s') : P s := by
  induction run with
  | start => exact start
  | nand _ hcmd hok ih => exact nand ih hcmd hok
  | step _ hs ih => exact step ih hs

theorem writeNewPage_steps {io : IoType} {lpn : Nat} {ppa : Ppa}
    (hok : writeNewPage spp s io lpn = .ok (s', ppa)) :
    lpn < spp.ttPgs ∧ getNewPage s io = .ok ppa ∧ ∃ maptbl rmap blk, advanceWritePointer spp
      { s with
        maptbl := maptbl
        rmap := rmap
        ssd := { s.ssd with blk := blk }
        lm := s.lm.setLine ppa.blk { s.lm.lines ppa.blk with vpc := (s.lm.lines ppa.blk).vpc + 1 } }
      io = .ok s' := by
  unfold writeNewPage at hok
  obtain ⟨ppa', hppa, hok⟩ := bind_eq_ok.mp hok
  obtain ⟨s₁, hmap, hok⟩ := bind_eq_ok.mp hok
  obtain ⟨s₂, hrmap, hok⟩ := bind_eq_ok.mp hok
  obtain ⟨s₃, hvalid, hok⟩ := bind_eq_ok.mp hok
  obtain ⟨s₄, hadv, hok⟩ := bind_eq_ok.mp hok
  cases hok
  unfold setMaptblEnt at hmap
  obtain ⟨hlpn, hmap⟩ := nvmevAssert_bind_ok.mp hmap
  cases hmap
  unfold setRmapEnt at hrmap
  obtain ⟨_, _, hrmap⟩ := bind_eq_ok.mp hrmap
  cases hrmap
  unfold markPageValid at hvalid
  obtain ⟨pg, _, hvalid⟩ := bind_eq_ok.mp hvalid
  obtain ⟨_, hvalid⟩ := nvmevAssert_bind_ok.mp hvalid
  obtain ⟨_, hvalid⟩ := nvmevAssert_bind_ok.mp hvalid
  split at hvalid
  · cases hvalid
  obtain ⟨_, hvalid⟩ := nvmevAssert_bind_ok.mp hvalid
  cases hvalid
  exact ⟨hlpn, hppa, _, _, _, hadv⟩

/-- Dropping a page changes its block, its line and its entry in `rmap`. -/
theorem dropOldPage_steps {ppa : Ppa} (hok : dropOldPage spp s ppa = .ok s') : s' = s ∨
    ppa.blk < spp.blksPerPl ∧ ∃ blk rmap lm, invalidateLine spp s.lm ppa.blk = .ok lm ∧
      s' = { s with ssd := { s.ssd with blk := blk }, rmap := rmap, lm := lm } := by
  unfold dropOldPage at hok
  split at hok
  · obtain ⟨s₁, hinv, hok⟩ := bind_eq_ok.mp hok
    unfold setRmapEnt at hok
    obtain ⟨_, _, hok⟩ := bind_eq_ok.mp hok
    cases hok
    unfold markPageInvalid at hinv
    obtain ⟨pg, _, hinv⟩ := bind_eq_ok.mp hinv
    obtain ⟨_, hinv⟩ := nvmevAssert_bind_ok.mp hinv
    obtain ⟨_, hinv⟩ := nvmevAssert_bind_ok.mp hinv
    obtain ⟨_, hinv⟩ := nvmevAssert_bind_ok.mp hinv
    split at hinv
    · cases hinv
    rename_i hblk
    obtain ⟨lm₁, hline, hinv⟩ := bind_eq_ok.mp hinv
    cases hinv
    exact Or.inr ⟨Nat.not_le.mp hblk, _, _, _, hline, rfl⟩
  · cases hok
    exact Or.inl rfl

/-- One partition has been run, and the others have at most seen the link and the clock move. -/
def NsRun (clk : Nat → Nat) (spp : SsdParams) (ns ns' : ConvNs) : Prop :=
  ∀ i, ∃ log, FtlRun clk spp (ns.load i) log (ns'.load i)

theorem NsRun.refl (ns : ConvNs) : NsRun clk spp ns ns := fun _ => ⟨[], .start⟩

theorem NsRun.trans {ns'' : ConvNs} (h : NsRun clk spp ns ns') (h' : NsRun clk spp ns' ns'') :
    NsRun clk spp ns ns'' := by
  intro i
  obtain ⟨log, hrun⟩ := h i
  obtain ⟨log', hrun'⟩ := h' i
  exact ⟨_, hrun.trans hrun'⟩

theorem FtlRun.store {i : Nat} {f : ConvFtl} (h : FtlRun clk spp (ns.load i) log f) :
    NsRun clk spp ns (ns.store i f) := by
  intro j
  by_cases hj : j = i
  · rw [hj, load_store_same]
    exact ⟨log, h⟩
  · rw [load_store_other ns f hj]
    exact ⟨[], FtlRun.start.step (.link _ _)⟩

/-- The read loop: the commands so far are a run, and a pending transfer has a page to come from. -/
structure ReadRun (clk : Nat → Nat) (spp : SsdParams) (f : ConvFtl) (r : ReadState) : Prop where
  run : ∃ log, FtlRun clk spp f log { f with ssd := r.ssd }
  pending : 0 < r.xferSize →
    (r.prevPpa.ch < spp.nchs ∧ r.prevPpa.lun < spp.lunsPerCh) ∧ r.prevPpa ≠ unmappedPpa

theorem issueRead_run {f : ConvFtl} {r r' : ReadState} {stime : Nat} (k : ReadRun clk spp f r)
    (hx : 0 < r.xferSize) (h : issueRead clk spp stime r = .ok r') : ReadRun clk spp f r' := by
  obtain ⟨log, hrun⟩ := k.run
  unfold issueRead at h
  obtain ⟨⟨ssd, t⟩, hok, h⟩ := bind_eq_ok.mp h
  cases h
  obtain ⟨hdie, hmapped⟩ := k.pending hx
  exact ⟨⟨_, hrun.nand ⟨hdie, hmapped, fun _ _ => hx⟩ hok⟩, k.pending⟩

theorem readOnePage_run {f : ConvFtl} {r r' : ReadState} {stime lpn : Nat} (k : ReadRun clk spp f r)
    (h : readOnePage clk spp f stime lpn r = .ok r') : ReadRun clk spp f r' := by
  unfold readOnePage at h
  obtain ⟨curPpa, _, h⟩ := bind_eq_ok.mp h
  split at h
  · cases h
    exact k
  rename_i hcur
  have hva : validPpa spp curPpa := by
    by_contra hc
    exact hcur (Or.inr hc)
  have hmap : curPpa ≠ unmappedPpa := by
    rintro rfl
    exact hcur (Or.inl (by decide))
  split at h
  · rename_i hsame
    cases h
    refine ⟨k.run, fun _ => ?_⟩
    obtain ⟨hm, hs⟩ := hsame
    unfold isSameFlashPage at hs
    rw [Bool.and_eq_true, beq_iff_eq] at hs
    have hch : curPpa.ch = r.prevPpa.ch := congrArg BlkAddr.ch hs.1
    have hlun : curPpa.lun = r.prevPpa.lun := congrArg BlkAddr.lun hs.1
    refine ⟨⟨hch ▸ hva.1, hlun ▸ hva.2.1⟩, ?_⟩
    intro he
    rw [he] at hm
    exact absurd hm (by decide)
  · have hrest : ∀ r₁, ReadRun clk spp f r₁ →
        ReadRun clk spp f { r₁ with xferSize := spp.pgsz, prevPpa := curPpa } :=
      fun r₁ k₁ => ⟨k₁.run, fun _ => ⟨⟨hva.1, hva.2.1⟩, hmap⟩⟩
    split at h
    · rename_i hx
      obtain ⟨r₁, hr₁, h⟩ := bind_eq_ok.mp h
      cases h
      exact hrest r₁ (issueRead_run k hx hr₁)
    · cases h
      exact hrest r k

/-- What every pass of a loop keeps holds when the loop has returned. -/
theorem upto_ok {σ : Type} {f : Nat → σ → Except Fault σ} {P : σ → Prop} {n : Nat} {s s' : σ}
    (h : upto f n s = .ok s') (start : P s) (step : ∀ k t t', P t → f k t = .ok t' → P t') : P s' :=
  upto_induct (fun _ => P) h start (fun k _ => step k)

theorem readPart_run {stime start last nsecsLatest t : Nat} {issued : List NandCmd}
    (h : readPart clk spp ns stime start last nsecsLatest = .ok (ns', t, issued)) : NsRun clk spp ns ns' := by
  unfold readPart at h
  dsimp only at h
  generalize start % ns.nrParts = part at h
  obtain ⟨prevPpa, _, h⟩ := bind_eq_ok.mp h
  obtain ⟨r, hr, h⟩ := bind_eq_ok.mp h
  have k : ReadRun clk spp (ns.load part) r := by
    refine upto_ok hr ⟨⟨[], .start⟩, fun hx => absurd hx (Nat.lt_irrefl 0)⟩ ?_
    exact fun _ _ _ kt ht => readOnePage_run kt ht
  have hdone : ∀ r', ReadRun clk spp (ns.load part) r' →
      NsRun clk spp ns (ns.store part { ns.load part with ssd := r'.ssd }) := by
    intro r' k'
    obtain ⟨log, hrun⟩ := k'.run
    exact hrun.store
  split at h
  · rename_i hx
    obtain ⟨r₁, hr₁, h⟩ := bind_eq_ok.mp h
    cases h
    exact hdone r₁ (issueRead_run k hx hr₁)
  · cases h
    exact hdone r k

theorem convRead_run {req : NvmevRequest} {ret : NvmevResult}
    (h : convRead clk spp ns req = .ok (some (ns', ret))) : NsRun clk spp ns ns' := by
  unfold convRead at h
  dsimp only at h
  split at h
  · cases h
  split at h
  · cases h
  obtain ⟨⟨ns₁, t₁⟩, hloop, h⟩ := bind_eq_ok.mp h
  cases h
  refine upto_ok (P := fun p => NsRun clk spp ns p.1) hloop (NsRun.refl ns) ?_
  rintro i ⟨ns₁, t₁⟩ ⟨ns₂, t₂⟩ hrun hi
  dsimp only at hi
  split at hi
  · obtain ⟨⟨ns₃, t₃, issued⟩, hpart, hi⟩ := bind_eq_ok.mp hi
    cases hi
    exact hrun.trans (readPart_run hpart)
  · cases hi
    exact hrun

theorem convWritePage_run {lpn : Nat} {ppa : Ppa} (g : Geometry spp) (hs : Sound spp s none)
    (h : convWritePage spp s lpn = .ok (s', ppa)) : FtlRun clk spp s [] s' := by
  unfold convWritePage getMaptblEnt at h
  by_cases hl : lpn < spp.ttPgs
  · rw [if_pos hl, ok_bind] at h
    obtain ⟨s₁, hdrop, h⟩ := bind_eq_ok.mp h
    obtain ⟨hs₁, _, _⟩ := (dropOldPage_sat g hs (M := False) (fun hf => hf.elim) hl).of_ok hdrop
    exact (FtlRun.start.step (.drop hs hl hdrop)).step (.write hs₁ h)
  · rw [if_neg hl, error_bind] at h
    cases h

theorem writeOneLpn_run {req : NvmevRequest} {stime lpn : Nat} {w w' : WriteState} (k : NsOk spp M w.ns)
    (g : Geometry spp) (h : writeOneLpn clk spp req stime lpn w = .ok w') :
    NsOk spp M w'.ns ∧ NsRun clk spp w.ns w'.ns := by
  have hpart : lpn % w.ns.nrParts < w.ns.nrParts := Nat.mod_lt _ k.parts_pos
  unfold writeOneLpn at h
  generalize lpn % w.ns.nrParts = part at h hpart
  obtain ⟨⟨f, ppa⟩, hpage, h⟩ := bind_eq_ok.mp h
  have hrun : FtlRun clk spp (w.ns.load part) [] f := convWritePage_run g (k.sound part hpart) hpage
  obtain ⟨hs, hm, hw⟩ :=
    (convWritePage_sat g (k.sound part hpart) (fun hM => k.map hM part hpart) _).of_ok hpage
  dsimp only at h hs hm hw
  split at h
  · obtain ⟨⟨ssd, t⟩, hnand, h⟩ := bind_eq_ok.mp h
    cases h
    have hdie := hw.page.range
    obtain ⟨hblk, hperf⟩ := (ssdAdvanceNand_paced clk spp hs.perf _ hdie.ch hdie.lun).of_ok hnand
    refine ⟨k.store (hs.retime hblk hperf) (fun hM => (hm hM).retime hblk), ?_⟩
    have hread : NandOp.write = .read → 0 < spp.pgsz * spp.pgsPerOneshotpg := fun he => nomatch he
    exact (hrun.nand ⟨⟨hdie.ch, hdie.lun⟩, hw.page.mapped, fun _ => hread⟩ hnand).store
  · cases h
    exact ⟨k.store hs hm, hrun.store⟩

theorem convWrite_run {req : NvmevRequest} {ret : NvmevResult} {ops : List InternalOp} (k : NsOk spp M ns)
    (g : Geometry spp) (h : convWrite clk spp ns req = .ok (some (ns', ret, ops))) : NsRun clk spp ns ns' := by
  unfold convWrite at h
  dsimp only at h
  split at h
  · cases h
  split at h
  · cases h
  split at h
  · cases h
  generalize hns₁ : ({ ns with writeBuffer := (bufferAllocate ns.writeBuffer
    (lbaToByte (nrLba req.cmd))).1 } : ConvNs) = ns₁ at h
  have hload : ∀ i, ns₁.load i = ns.load i := fun i => by subst hns₁; rfl
  have k₁ : NsOk spp M ns₁ := by
    refine ⟨by subst hns₁; exact k.csi, by subst hns₁; exact k.parts_pos, ?_, ?_⟩
    · intro i hi
      rw [hload]
      exact k.sound i (by subst hns₁; exact hi)
    · intro hM i hi
      rw [hload]
      exact k.map hM i (by subst hns₁; exact hi)
  have hrun₁ : NsRun clk spp ns ns₁ := fun i => ⟨[], by rw [hload]; exact .start⟩
  obtain ⟨⟨ssd, t⟩, hxfer, h⟩ := bind_eq_ok.mp h
  obtain ⟨w, hw, h⟩ := bind_eq_ok.mp h
  cases h
  obtain ⟨hblk, hperf⟩ :=
    (ssdAdvanceWriteBuffer_paced clk spp (k₁.sound 0 k₁.parts_pos).perf _ _).of_ok hxfer
  -- the transfer to the write buffer moves the link and the clock
  have hlink : ssd = { (ns₁.load 0).ssd with pcie := ssd.pcie, ticks := ssd.ticks } := by
    unfold ssdAdvanceWriteBuffer ssdAdvancePcie at hxfer
    obtain ⟨⟨model, time⟩, _, hxfer⟩ := bind_eq_ok.mp hxfer
    cases hxfer
    rfl
  have hrun₂ : NsRun clk spp ns₁ (ns₁.store 0 { ns₁.load 0 with ssd := ssd }) := by
    rw [hlink]
    exact (FtlRun.start.step (.link _ _)).store
  have hloop := upto_ok (P := fun w => NsOk spp M w.ns ∧
      NsRun clk spp (ns₁.store 0 { ns₁.load 0 with ssd := ssd }) w.ns) hw
    ⟨k₁.sleep k₁.parts_pos hblk hperf, NsRun.refl _⟩ (by
      rintro j t t' ⟨kt, hrt⟩ ht
      obtain ⟨kt', hrt'⟩ := writeOneLpn_run kt g ht
      exact ⟨kt', hrt.trans hrt'⟩)
  exact hrun₁.trans (hrun₂.trans hloop.2)

theorem runs_collect (s₁ : ConvFtl) (v : Nat) : CollectRule clk spp M s₀ v
    (fun _ _ _ _ s => ∃ log, FtlRun clk spp s₁ log s) := by
  refine ⟨?_, ?_, fun _ hx _ _ => hx, ?_, ?_, fun hx _ => hx, fun hx => hx, fun hx _ => hx⟩
  · rintro f c l i s ncmd ssd t _ ⟨log, hrun⟩ hcmd hok
    exact ⟨_, hrun.nand hcmd hok⟩
  · rintro f c l i s s' c' l' x' p' m ⟨log, hrun⟩ _ _ _ hok _ _
    exact ⟨_, hrun.step (.write m.sound hok)⟩
  · rintro f c l s m ⟨log, hrun⟩ _ _ _
    exact ⟨_, hrun.step (.erase c l _ m.sound)⟩
  · rintro f c l i s ppa t ⟨log, hrun⟩
    exact ⟨_, hrun.step (.endtime ppa t)⟩

theorem doGc_run {force : Bool} {r : Int} (g : Geometry spp) (hs : Sound spp s none)
    (h : doGc clk spp cpp s force = .ok (s', r)) : ∃ log, FtlRun clk spp s log s' := by
  rcases selectVictimLine_cases hs g force with
    ⟨hnone, _⟩ | ⟨v, s₁, hsel, hv, _, hid, hno, hfits, hrel, hwp, hfree, hs₁⟩
  · unfold doGc at h
    rw [hnone] at h
    cases h
    exact ⟨[], .start⟩
  · rw [doGc_selected g hsel hid hv] at h
    obtain ⟨t, hcopy, h⟩ := bind_eq_ok.mp h
    cases h
    have m := Mid.begin (M := False) g (fun hf => hf.elim) hrel hwp hfree hs₁
    have hrun : FtlRun clk spp s [] (collecting s₁ v) :=
      (FtlRun.start.step (.select hs hsel)).step (.recount _ _)
    obtain ⟨mt, log, hrun'⟩ := (gcCopyBack_sat (runs_collect s v) m ⟨_, hrun⟩ g hfits hno hv).of_ok hcopy
    exact ⟨_, hrun'.step (.free mt.sound hv)⟩

theorem gcWhileHigh_run (g : Geometry spp) {fuel : Nat} (hs : Sound spp s none)
    (h : gcWhileHigh clk spp cpp fuel s = .ok s') : ∃ log, FtlRun clk spp s log s' := by
  induction fuel generalizing s with
  | zero =>
    unfold gcWhileHigh at h
    split at h
    · cases h
    · cases h
      exact ⟨[], .start⟩
  | succ fuel ih =>
    unfold gcWhileHigh at h
    split at h
    · obtain ⟨⟨t, r⟩, hgc, h⟩ := bind_eq_ok.mp h
      obtain ⟨log, hrun⟩ := doGc_run g hs hgc
      have hst : Sound spp t none := by
        rcases (doGc_sat hs g (M := False) (fun hf => hf.elim) true).of_ok hgc with ⟨rfl, _⟩ | ⟨v, _, _, hcol⟩
        · exact hs
        · exact hcol.sound
      obtain ⟨log', hrun'⟩ := ih hst h
      exact ⟨_, hrun.trans hrun'⟩
    · cases h
      exact ⟨[], .start⟩

theorem convFlush_run (clk : Nat → Nat) (spp : SsdParams) (ns : ConvNs) :
    NsRun clk spp ns (convFlush clk spp ns).1 :=
  convFlush_keeps (fun i => ⟨[], FtlRun.start.step (.link (ns.load i).ssd.pcie _)⟩)
    (fun _ _ _ _ hp => hp.trans (FtlRun.start.step (.link _ _)).store)

theorem convDispatch_run {req : NvmevRequest} {ret ret' : NvmevResult} {ops : List InternalOp}
    (k : NsOk spp M ns) (g : Geometry spp)
    (h : convDispatch clk spp ns req ret = .ok (some (ns', ret', ops))) : NsRun clk spp ns ns' := by
  unfold convDispatch at h
  split at h
  · exact convWrite_run k g h
  · obtain ⟨r, hr, h⟩ := bind_eq_ok.mp h
    cases r with
    | none => cases h
    | some p =>
      cases h
      exact convRead_run hr
  · cases h
    exact convFlush_run clk spp ns
  · cases h
    exact NsRun.refl ns
  · cases h
    exact NsRun.refl ns

theorem convProcNvmeIoCmd_run {req : NvmevRequest} {ret : NvmevResult} {fuel : Nat} {o : ProcOutcome}
    (k : NsOk spp M ns) (g : Geometry spp) (h : convProcNvmeIoCmd clk spp cpp fuel ns req ret = .ok o) :
    NsRun clk spp ns o.ns := by
  rcases convProcNvmeIoCmd_cases h with ⟨_, rfl⟩ | ⟨ns₁, ret', ops, f, hd, hf, rfl⟩
  · exact NsRun.refl ns
  · have k₁ := ((convDispatch_sat k g req ret).of_ok hd ns₁ ret' ops rfl).nsOk
    obtain ⟨log, hrun⟩ := gcWhileHigh_run g (k₁.sound 0 k₁.parts_pos) hf
    exact (convDispatch_run k g hd).trans hrun.store

theorem Reachable.nsRun {cfg : ConvConfig} {mem : Nat → Leftover} {size : Nat}
    {host : ConvNs → NvmevRequest → Prop} {ops : List InternalOp}
    (hr : Reachable clk cfg mem size host spp ns ops) (hpos : 0 < spp.ttPgs) :
    ∃ ns₀, convInitNamespace cfg.toSsdConfig mem size = .ok (spp, ns₀) ∧ NsRun clk spp ns₀ ns := by
  have g := hr.geometry hpos
  induction hr with
  | init h => exact ⟨_, h, NsRun.refl _⟩
  | command hr _ h ih =>
    obtain ⟨ns₀, hinit, hrun⟩ := ih
    exact ⟨ns₀, hinit, hrun.trans (convProcNvmeIoCmd_run (hr.nsOk hpos).1 g h)⟩
  | release _ _ ih =>
    obtain ⟨ns₀, hinit, hrun⟩ := ih
    exact ⟨ns₀, hinit, hrun⟩

section Collection

variable {cfg : ConvConfig} {mem : Nat → Leftover} {size : Nat} {host : ConvNs → NvmevRequest → Prop}
  {ops : List InternalOp} {i : Nat}

/-- The states of partition `i` in which `do_gc` may be called while `ns` is the namespace: between
two commands, when the `switch` of a command is done, and after any collections from there. -/
inductive AtCollection (clk : Nat → Nat) (cfg : ConvConfig) (host : ConvNs → NvmevRequest → Prop)
    (spp : SsdParams) (ns : ConvNs) (i : Nat) : ConvFtl → Prop where
  | rest : AtCollection clk cfg host spp ns i (ns.load i)
  | served {req : NvmevRequest} {ret ret' : NvmevResult} {ns₁ : ConvNs} {ops : List InternalOp} :
      host ns req → convDispatch clk spp ns req ret = .ok (some (ns₁, ret', ops)) →
      AtCollection clk cfg host spp ns i (ns₁.load i)
  | collected {s s' : ConvFtl} {force : Bool} {r : Int} : AtCollection clk cfg host spp ns i s →
      doGc clk spp (convInitParams cfg.toSsdConfig) s force = .ok (s', r) →
      AtCollection clk cfg host spp ns i s'

theorem AtCollection.sound (h : AtCollection clk cfg host spp ns i s) (k : NsOk spp M ns) (g : Geometry spp)
    (hi : i < ns.nrParts) : Sound spp s none ∧ (M → MapOk spp s (ValidPage spp s)) := by
  induction h with
  | rest => exact ⟨k.sound i hi, fun hM => k.map hM i hi⟩
  | served hreq hd =>
    have hdis := (convDispatch_sat k g _ _).of_ok hd _ _ _ rfl
    have hi' : i < _ := hdis.nrParts.symm ▸ hi
    exact ⟨hdis.nsOk.sound i hi', fun hM => hdis.nsOk.map hM i hi'⟩
  | collected _ hgc ih =>
    rcases (doGc_sat ih.1 g ih.2 _).of_ok hgc with ⟨rfl, _⟩ | ⟨v, _, _, hcol⟩
    · exact ih
    · exact ⟨hcol.sound, hcol.map⟩

theorem AtCollection.run (h : AtCollection clk cfg host spp ns i s) (k : NsOk spp M ns) (g : Geometry spp)
    (hi : i < ns.nrParts) : ∃ log, FtlRun clk spp (ns.load i) log s := by
  induction h with
  | rest => exact ⟨[], .start⟩
  | served _ hd => exact convDispatch_run k g hd i
  | collected h hgc ih =>
    obtain ⟨log, hrun⟩ := ih
    obtain ⟨log', hrun'⟩ := doGc_run g (h.sound k g hi).1 hgc
    exact ⟨_, hrun.trans hrun'⟩

/-- Without pages nothing is ever queued, and a collection has nothing to do. -/
theorem AtCollection.slept (h : AtCollection clk cfg host spp ns i s) (hz : spp.ttPgs = 0)
    (hr : Reachable clk cfg mem size host spp ns ops) (hi : i < ns.nrParts) :
    Slept (freshFtl spp (mem i) (ssdInit spp)) s := by
  obtain ⟨_, hn, _, hall⟩ := hr.frozen hz
  induction h with
  | rest => exact hall i hi
  | served _ hd =>
    obtain ⟨r, hr', hidle⟩ := convDispatch_no_pages clk hz hn _ _
    rw [hd] at hr'
    obtain ⟨hid, _⟩ := hidle _ _ _ (Except.ok.inj hr').symm
    exact (hall i hi).trans (hid.slept i)
  | @collected s₁ s₂ _ _ _ hgc ih =>
    have hq : s₁.lm.victimLinePq.size = 1 := by
      obtain ⟨ssd, rfl, _⟩ := ih
      rfl
    rw [doGc_empty hq] at hgc
    cases hgc
    exact ih

end Collection

end NVMeVirt
