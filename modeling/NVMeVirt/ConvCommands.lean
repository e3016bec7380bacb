import NVMeVirt.ConvGc
import NVMeVirt.ConvNamespace
import Mathlib.Data.Nat.ModEq

/-!
# Commands keep every partition consistent

Reads and flushes change timing data only. A write of `k` pages takes `k` pages from the
budgets of the partitions and moves as many bytes into open wordlines or scheduled releases.
-/

namespace NVMeVirt
set_option autoImplicit false
open Outcome Census

variable {clk : Nat → Nat} {spp : SsdParams} {cpp : ConvParams} {M : Prop} {ns ns' : ConvNs}

/-- Every partition is consistent; `M` stands for paired tables. -/
structure NsOk (spp : SsdParams) (M : Prop) (ns : ConvNs) : Prop where
  csi : ns.csi = .nvm
  parts_pos : 0 < ns.nrParts
  sound : ∀ i < ns.nrParts, Sound spp (ns.load i) none
  map : M → ∀ i < ns.nrParts, MapOk spp (ns.load i) (ValidPage spp (ns.load i))

theorem load_store_same (ns : ConvNs) (i : Nat) (f : ConvFtl) : (ns.store i f).load i = f := by
  unfold ConvNs.store ConvNs.load
  simp

theorem load_store_other (ns : ConvNs) {i j : Nat} (f : ConvFtl) (hj : j ≠ i) :
    (ns.store i f).load j = { ns.load j with
      ssd := { (ns.load j).ssd with pcie := f.ssd.pcie, ticks := f.ssd.ticks } } := by
  unfold ConvNs.store ConvNs.load
  simp [hj]

theorem MapOk.retime {s : ConvFtl} (m : MapOk spp s (ValidPage spp s)) {ssd : Ssd}
    (hblk : ssd.blk = s.ssd.blk) :
    MapOk spp { s with ssd := ssd } (ValidPage spp { s with ssd := ssd }) := by
  refine m.congr rfl rfl ?_
  intro a
  unfold ValidPage pgStatus statusAt blockAt
  rw [hblk]

theorem NsOk.store (k : NsOk spp M ns) {i : Nat} {f : ConvFtl} (hs : Sound spp f none)
    (hm : M → MapOk spp f (ValidPage spp f)) : NsOk spp M (ns.store i f) := by
  refine ⟨k.csi, k.parts_pos, ?_, ?_⟩
  · intro j hj
    by_cases hji : j = i
    · rw [hji, load_store_same]
      exact hs
    · rw [load_store_other ns f hji]
      exact (k.sound j hj).retime rfl
        (fun hr => ⟨((k.sound j hj).perf hr).ch, (hs.perf hr).pcie⟩)
  · intro hM j hj
    by_cases hji : j = i
    · rw [hji, load_store_same]
      exact hm hM
    · rw [load_store_other ns f hji]
      exact (k.map hM j hj).retime rfl

/-- Two states of a partition that differ in timing data only. -/
def Slept (s s' : ConvFtl) : Prop := ∃ ssd, s' = { s with ssd := ssd } ∧ ssd.blk = s.ssd.blk

theorem Slept.refl (s : ConvFtl) : Slept s s := ⟨s.ssd, rfl, rfl⟩

theorem Slept.trans {s s' s'' : ConvFtl} (h : Slept s s') (h' : Slept s' s'') : Slept s s'' := by
  obtain ⟨ssd, rfl, hb⟩ := h
  obtain ⟨ssd', rfl, hb'⟩ := h'
  exact ⟨ssd', rfl, hb'.trans hb⟩

/-- The namespace fields that no command changes, and the write buffer. -/
structure SameShell (ns ns' : ConvNs) : Prop where
  csi : ns'.csi = ns.csi
  nrParts : ns'.nrParts = ns.nrParts
  size : ns'.size = ns.size
  writeBuffer : ns'.writeBuffer = ns.writeBuffer

theorem SameShell.refl (ns : ConvNs) : SameShell ns ns := ⟨rfl, rfl, rfl, rfl⟩

theorem SameShell.trans {ns'' : ConvNs} (h : SameShell ns ns') (h' : SameShell ns' ns'') :
    SameShell ns ns'' :=
  ⟨h'.csi.trans h.csi, h'.nrParts.trans h.nrParts, h'.size.trans h.size,
    h'.writeBuffer.trans h.writeBuffer⟩

structure Idle (ns ns' : ConvNs) : Prop where
  shell : SameShell ns ns'
  slept : ∀ i, Slept (ns.load i) (ns'.load i)

theorem Idle.refl (ns : ConvNs) : Idle ns ns := ⟨SameShell.refl ns, fun _ => Slept.refl _⟩

theorem Idle.trans {ns'' : ConvNs} (h : Idle ns ns') (h' : Idle ns' ns'') : Idle ns ns'' :=
  ⟨h.shell.trans h'.shell, fun i => (h.slept i).trans (h'.slept i)⟩

theorem idle_store {i : Nat} {ssd : Ssd} (hblk : ssd.blk = (ns.load i).ssd.blk) :
    Idle ns (ns.store i { ns.load i with ssd := ssd }) := by
  refine ⟨⟨rfl, rfl, rfl, rfl⟩, ?_⟩
  intro j
  by_cases hj : j = i
  · rw [hj, load_store_same]
    exact ⟨ssd, rfl, hblk⟩
  · rw [load_store_other ns _ hj]
    exact ⟨_, rfl, rfl⟩

theorem NsOk.sleep (k : NsOk spp M ns) {i : Nat} (hi : i < ns.nrParts) {ssd : Ssd}
    (hblk : ssd.blk = (ns.load i).ssd.blk) (hperf : Rated spp → ssd.PerfOk) :
    NsOk spp M (ns.store i { ns.load i with ssd := ssd }) :=
  k.store ((k.sound i hi).retime hblk hperf) (fun hM => (k.map hM i hi).retime hblk)

/-- The local variables of the read loop: a pending transfer has a die to come from. -/
structure Reading (spp : SsdParams) (ssd : Ssd) (r : ReadState) : Prop where
  blk : r.ssd.blk = ssd.blk
  perf : Rated spp → r.ssd.PerfOk
  die : 0 < r.xferSize → r.prevPpa.ch < spp.nchs ∧ r.prevPpa.lun < spp.lunsPerCh

theorem issueRead_sat {ssd : Ssd} {r : ReadState} (k : Reading spp ssd r) (hx : 0 < r.xferSize)
    (stime : Nat) :
    Sat (issueRead clk spp stime r) (Reading spp ssd) (fun _ => ¬ Rated spp) := by
  unfold issueRead
  refine (ssdAdvanceNand_paced clk spp k.perf _ (k.die hx).1 (k.die hx).2).bind ?_
  rintro ⟨ssd', t⟩ ⟨hblk, hperf⟩
  exact ⟨hblk.trans k.blk, hperf, k.die⟩

theorem readOnePage_sat {f : ConvFtl} {ssd : Ssd} {r : ReadState} (k : Reading spp ssd r)
    (stime : Nat) {lpn : Nat} (hl : lpn < spp.ttPgs) :
    Sat (readOnePage clk spp f stime lpn r) (Reading spp ssd) (fun _ => ¬ Rated spp) := by
  unfold readOnePage getMaptblEnt
  rw [if_pos hl, ok_bind]
  split
  · exact k
  · rename_i hcur
    have hva : validPpa spp (f.maptbl lpn) := by
      by_contra hc
      exact hcur (Or.inr hc)
    split
    · rename_i hsame
      refine ⟨k.blk, k.perf, fun _ => ?_⟩
      have hs := hsame.2
      unfold isSameFlashPage at hs
      rw [Bool.and_eq_true, beq_iff_eq] at hs
      have hch : (f.maptbl lpn).ch = r.prevPpa.ch := congrArg BlkAddr.ch hs.1
      have hlun : (f.maptbl lpn).lun = r.prevPpa.lun := congrArg BlkAddr.lun hs.1
      exact ⟨hch ▸ hva.1, hlun ▸ hva.2.1⟩
    · have hrest : ∀ r', Reading spp ssd r' → Reading spp ssd { r' with
          xferSize := spp.pgsz, prevPpa := f.maptbl lpn } :=
        fun r' k' => ⟨k'.blk, k'.perf, fun _ => ⟨hva.1, hva.2.1⟩⟩
      split
      · rename_i hx
        exact (issueRead_sat k hx stime).bind hrest
      · exact hrest r k

theorem strided_le {start last n k : Nat} (hle : start ≤ last) (hk : k < (last - start) / n + 1) :
    (start + k * n) / n ≤ last / n := by
  apply Nat.div_le_div_right
  have hm : k * n ≤ (last - start) / n * n := Nat.mul_le_mul_right n (by omega)
  have hd := Nat.div_mul_le_self (last - start) n
  omega

theorem readPart_sat (k : NsOk spp M ns) {start last : Nat} (hle : start ≤ last)
    (hlast : last / ns.nrParts < spp.ttPgs) (stime nsecsLatest : Nat) :
    Sat (readPart clk spp ns stime start last nsecsLatest)
      (fun r => NsOk spp M r.1 ∧ Idle ns r.1) (fun _ => ¬ Rated spp) := by
  have hpart : start % ns.nrParts < ns.nrParts := Nat.mod_lt _ k.parts_pos
  have hfirst : start / ns.nrParts < spp.ttPgs :=
    Nat.lt_of_le_of_lt (Nat.div_le_div_right hle) hlast
  unfold readPart
  dsimp only
  generalize start % ns.nrParts = part at *
  rw [show getMaptblEnt spp (ns.load part) (start / ns.nrParts) =
    .ok ((ns.load part).maptbl (start / ns.nrParts)) from if_pos hfirst, ok_bind]
  have hdone : ∀ r', Reading spp (ns.load part).ssd r' →
      NsOk spp M (ns.store part { ns.load part with ssd := r'.ssd }) ∧
        Idle ns (ns.store part { ns.load part with ssd := r'.ssd }) :=
    fun r' k' => ⟨k.sleep hpart k'.blk k'.perf, idle_store k'.blk⟩
  refine Sat.bind (upto_sat (fun _ r => Reading spp (ns.load part).ssd r) _ ?_ ?_) ?_
  · exact ⟨rfl, (k.sound part hpart).perf, fun hx => absurd hx (Nat.lt_irrefl 0)⟩
  · intro j hj r kr
    exact readOnePage_sat kr stime (Nat.lt_of_le_of_lt (strided_le hle hj) hlast)
  · intro r kr
    split
    · rename_i hx
      exact (issueRead_sat kr hx stime).bind hdone
    · exact hdone r kr

/-- A read that is not refused returns and changes timing data only. -/
theorem convRead_sat (k : NsOk spp M ns) (req : NvmevRequest) :
    Sat (convRead clk spp ns req)
      (fun r => ∀ p, r = some p → NsOk spp M p.1 ∧ Idle ns p.1) (fun _ => ¬ Rated spp) := by
  unfold convRead
  dsimp only
  rw [if_neg (Nat.ne_of_gt k.parts_pos)]
  split
  · intro p hp
    exact nomatch hp
  · rename_i hlast
    have hlast := Nat.not_le.mp hlast
    refine Sat.bind (upto_sat (fun _ (p : ConvNs × Nat) => NsOk spp M p.1 ∧ Idle ns p.1) _
      ⟨k, Idle.refl ns⟩ ?_) ?_
    · rintro i _ ⟨ns₁, t₁⟩ ⟨k₁, hid₁⟩
      dsimp only at k₁ hid₁ ⊢
      split
      · rename_i hle
        have hn := hid₁.shell.nrParts
        refine Sat.bind (readPart_sat k₁ hle (by rw [hn]; exact hlast) _ _) ?_
        rintro ⟨ns₂, t₂, _⟩ ⟨k₂, hid₂⟩
        exact ⟨k₂, hid₁.trans hid₂⟩
      · exact ⟨k₁, hid₁⟩
    · rintro ⟨ns₁, t₁⟩ ⟨k₁, hid₁⟩
      intro p hp
      cases hp
      exact ⟨k₁, hid₁⟩

theorem NsOk.tick (k : NsOk spp M ns) (n : Nat) : NsOk spp M { ns with ticks := n } := by
  refine ⟨k.csi, k.parts_pos, ?_, ?_⟩
  · intro i hi
    exact (k.sound i hi).retime rfl (fun hr => ⟨((k.sound i hi).perf hr).ch, ((k.sound i hi).perf hr).pcie⟩)
  · intro hM i hi
    exact (k.map hM i hi).retime rfl

theorem idle_tick (ns : ConvNs) (n : Nat) : Idle ns { ns with ticks := n } :=
  ⟨⟨rfl, rfl, rfl, rfl⟩, fun _ => ⟨_, rfl, rfl⟩⟩

theorem convFlush_keeps {P : ConvNs → Prop} (htick : P { ns with ticks := ns.ticks + 1 })
    (step : ∀ ns' i t, i < ns.nrParts → P ns' → P (flushPart clk spp i (ns', t)).1) :
    P (convFlush clk spp ns).1 := by
  have hall : ∀ (l : List Nat) (p : ConvNs × Nat), (∀ i ∈ l, i < ns.nrParts) → P p.1 →
      P (l.foldl (fun p i => flushPart clk spp i p) p).1 := by
    intro l
    induction l with
    | nil => exact fun _ _ hp => hp
    | cons i l ih =>
      intro p hl hp
      exact ih _ (fun j hj => hl j (List.mem_cons_of_mem i hj))
        (step p.1 i p.2 (hl i List.mem_cons_self) hp)
  exact hall (List.range ns.nrParts) ({ ns with ticks := ns.ticks + 1 }, clk ns.ticks)
    (fun i hi => List.mem_range.mp hi) htick

theorem convFlush_idle (clk : Nat → Nat) (spp : SsdParams) (ns : ConvNs) :
    Idle ns (convFlush clk spp ns).1 :=
  convFlush_keeps (idle_tick ns _) (fun _ _ _ _ hp => hp.trans (idle_store rfl))

theorem convFlush_ok (k : NsOk spp M ns) : NsOk spp M (convFlush clk spp ns).1 := by
  refine (convFlush_keeps (P := fun ns' => NsOk spp M ns' ∧ ns'.nrParts = ns.nrParts)
    ⟨k.tick _, rfl⟩ ?_).1
  rintro ns' i t hi ⟨k', hn⟩
  refine ⟨k'.sleep (hn.symm ▸ hi) rfl (fun hr => ?_), hn⟩
  have hperf := (k'.sound i (hn.symm ▸ hi)).perf hr
  exact ⟨hperf.ch, hperf.pcie⟩

/-- The bytes that scheduled operations give back. -/
def bytesOf (ops : List InternalOp) : Nat := (ops.map InternalOp.buffsToRelease).sum

theorem bytesOf_append (a b : List InternalOp) : bytesOf (a ++ b) = bytesOf a + bytesOf b := by
  simp [bytesOf]

theorem bytesOf_erase {op : InternalOp} {ops : List InternalOp} (h : op ∈ ops) :
    bytesOf ops = op.buffsToRelease + bytesOf (ops.erase op) := by
  have hp := ((List.perm_cons_erase h).map InternalOp.buffsToRelease).sum_eq
  rwa [List.map_cons, List.sum_cons] at hp

/-- The bytes of a partition in a one-shot page that is not full yet. -/
def openPart (spp : SsdParams) (s : ConvFtl) : Nat := s.wp.pg % spp.pgsPerOneshotpg * spp.pgsz

def openBytes (spp : SsdParams) (ns : ConvNs) : Nat :=
  ∑ i ∈ Finset.range ns.nrParts, openPart spp (ns.load i)

theorem openBytes_store (spp : SsdParams) {i : Nat} (hi : i < ns.nrParts) (f : ConvFtl) :
    openBytes spp (ns.store i f) + openPart spp (ns.load i) = openBytes spp ns + openPart spp f := by
  have hs := sum_swap (f := fun j => openPart spp ((ns.store i f).load j))
    (g := fun j => openPart spp (ns.load j)) hi (by
      intro j _ hj
      rw [load_store_other ns f hj]
      rfl)
  rw [load_store_same] at hs
  exact hs

theorem Idle.openBytes (h : Idle ns ns') : openBytes spp ns' = openBytes spp ns := by
  unfold NVMeVirt.openBytes
  rw [h.shell.nrParts]
  apply Finset.sum_congr rfl
  intro i _
  obtain ⟨ssd, he, _⟩ := h.slept i
  rw [he]
  rfl

/-- `n` more pages move the write pointer `n` places on through its one-shot page. -/
theorem wpPage_after {s s' : ConvFtl} (g : Geometry spp) (hs : Sound spp s none) (hs' : Sound spp s' none)
    {n : Nat} (hb : budget spp s .user = budget spp s' .user + n) :
    s'.wp.pg % spp.pgsPerOneshotpg = (s.wp.pg + n) % spp.pgsPerOneshotpg := by
  obtain ⟨h, fill, i, _⟩ := hs
  obtain ⟨h', fill', i', _⟩ := hs'
  have hlt : wpIndex spp s.wp < spp.pgsPerLine := (i.wp .user).index_lt g.wordlines
  have hlt' : wpIndex spp s'.wp < spp.pgsPerLine := (i'.wp .user).index_lt g.wordlines
  have hline : spp.pgsPerOneshotpg ∣ spp.pgsPerLine := by
    rw [g.line_eq, g.blk_oneshot]
    exact Dvd.intro_left (spp.nchs * spp.lunsPerCh * spp.oneshotpgsPerBlk) (by ring)
  -- both indices are the distance of the same budget to a whole number of lines
  have hmod : wpIndex spp s'.wp % spp.pgsPerOneshotpg =
      (wpIndex spp s.wp + n) % spp.pgsPerOneshotpg := by
    simp only [NVMeVirt.budget, getWp] at hb
    have h₁ : wpIndex spp s'.wp + (s'.lm.freeLineList.length * spp.pgsPerLine +
        (spp.pgsPerLine - wpIndex spp s'.wp)) = (s'.lm.freeLineList.length + 1) * spp.pgsPerLine := by
      rw [Nat.add_one_mul]
      omega
    have h₂ : wpIndex spp s.wp + n + (s'.lm.freeLineList.length * spp.pgsPerLine +
        (spp.pgsPerLine - wpIndex spp s'.wp)) = (s.lm.freeLineList.length + 1) * spp.pgsPerLine := by
      rw [Nat.add_one_mul]
      omega
    have hz : ∀ n, n * spp.pgsPerLine % spp.pgsPerOneshotpg = 0 := fun n =>
      Nat.mod_eq_zero_of_dvd (Dvd.dvd.mul_left hline n)
    apply Nat.ModEq.add_right_cancel' (s'.lm.freeLineList.length * spp.pgsPerLine +
      (spp.pgsPerLine - wpIndex spp s'.wp))
    unfold Nat.ModEq
    rw [h₁, h₂, hz, hz]
  have hpg : wpIndex spp s.wp % spp.pgsPerOneshotpg = s.wp.pg % spp.pgsPerOneshotpg :=
    allocIndex_mod _ _ _
  have hpg' : wpIndex spp s'.wp % spp.pgsPerOneshotpg = s'.wp.pg % spp.pgsPerOneshotpg :=
    allocIndex_mod _ _ _
  rw [← hpg', hmod, Nat.add_mod, hpg, ← Nat.add_mod]

/-- One page of a host write fills one page of the open one-shot page. -/
theorem PageWritten.openPart {s s' : ConvFtl} (g : Geometry spp) {lpn : Nat} {ppa : Ppa}
    (hw : PageWritten spp s s' lpn ppa) (hs : Sound spp s none) (hs' : Sound spp s' none) :
    openPart spp s' + (if lastPgInWordline spp ppa then spp.pgsPerOneshotpg * spp.pgsz else 0) =
      openPart spp s + spp.pgsz := by
  have hnext := wpPage_after g hs hs' hw.budget
  have hppa : ppa.pg % spp.pgsPerOneshotpg = s.wp.pg % spp.pgsPerOneshotpg := by
    rw [← allocIndex_mod ppa.ch ppa.lun ppa.pg, hw.index]
    exact allocIndex_mod _ _ _
  have hP := g.oneshot_pos
  unfold NVMeVirt.openPart lastPgInWordline
  rw [hppa, hnext, Nat.add_mod]
  have hm := Nat.mod_lt s.wp.pg hP
  generalize s.wp.pg % spp.pgsPerOneshotpg = r at *
  by_cases hlast : r = spp.pgsPerOneshotpg - 1
  · rw [if_pos (by simp [hlast])]
    have he : (r + 1 % spp.pgsPerOneshotpg) % spp.pgsPerOneshotpg = 0 := by
      rw [Nat.add_mod_mod, show r + 1 = spp.pgsPerOneshotpg by omega, Nat.mod_self]
    rw [he, Nat.zero_mul, Nat.zero_add, ← Nat.add_one_mul, show r + 1 = spp.pgsPerOneshotpg by omega]
  · rw [if_neg (by simp [hlast])]
    have he : (r + 1 % spp.pgsPerOneshotpg) % spp.pgsPerOneshotpg = r + 1 := by
      rw [Nat.add_mod_mod, Nat.mod_eq_of_lt (by omega)]
    rw [he, Nat.add_one_mul, Nat.add_zero]

/-- How many of `n` pages from `first` on are in partition `i` of `parts`. -/
def partPages (parts first n i : Nat) : Nat := tally n (fun k => (first + k) % parts == i)

/-- The state of the page loop of `conv_write` after `n` pages from `first` on. -/
structure Writing (spp : SsdParams) (M : Prop) (ns : ConvNs) (first n : Nat) (w : WriteState) :
    Prop where
  ok : NsOk spp M w.ns
  shell : SameShell ns w.ns
  budget : ∀ i < ns.nrParts, budget spp (ns.load i) .user =
    budget spp (w.ns.load i) .user + partPages ns.nrParts first n i
  maptbl : ∀ i j, (∀ lpn, first ≤ lpn → lpn < first + n → ¬ (lpn % ns.nrParts = i ∧ lpn / ns.nrParts = j)) →
    (w.ns.load i).maptbl j = (ns.load i).maptbl j
  bytes : bytesOf w.ops + openBytes spp w.ns = openBytes spp ns + n * spp.pgsz
  each : ∀ op ∈ w.ops, op.buffsToRelease = spp.pgsPerOneshotpg * spp.pgsz

/-- What may stop a write of `n` pages. -/
def WriteExcuse (spp : SsdParams) (M : Prop) (ns : ConvNs) (n : Nat) (_ : Fault) : Prop :=
  ¬ Rated spp ∨ ¬ M ∨ ¬ Fits spp ∨ ∃ i < ns.nrParts, budget spp (ns.load i) .user ≤ n

theorem Writing.step {first n : Nat} {w w' : WriteState} (k : Writing spp M ns first n w)
    (g : Geometry spp) {f : ConvFtl} {ssd : Ssd} {ppa : Ppa}
    (hw : PageWritten spp (w.ns.load ((first + n) % w.ns.nrParts)) f ((first + n) / w.ns.nrParts) ppa)
    (hs : Sound spp f none) (hm : M → MapOk spp f (ValidPage spp f)) (hblk : ssd.blk = f.ssd.blk)
    (hperf : Rated spp → ssd.PerfOk)
    (hns : w'.ns = w.ns.store ((first + n) % w.ns.nrParts) { f with ssd := ssd })
    (hops : bytesOf w'.ops = bytesOf w.ops +
      if lastPgInWordline spp ppa then spp.pgsPerOneshotpg * spp.pgsz else 0)
    (heach : ∀ op ∈ w'.ops, op ∈ w.ops ∨ op.buffsToRelease = spp.pgsPerOneshotpg * spp.pgsz) :
    Writing spp M ns first (n+1) w' := by
  have hpart : (first + n) % w.ns.nrParts < w.ns.nrParts := Nat.mod_lt _ k.ok.parts_pos
  have hopen := hw.openPart g (k.ok.sound _ hpart) hs
  have hsum := openBytes_store spp hpart { f with ssd := ssd }
  have hnr := k.shell.nrParts
  generalize hp : (first + n) % w.ns.nrParts = part at *
  refine ⟨?_, ?_, ?_, ?_, ?_, ?_⟩
  · rw [hns]
    exact k.ok.store (hs.retime hblk hperf) (fun hM => (hm hM).retime hblk)
  · rw [hns]
    exact k.shell.trans ⟨rfl, rfl, rfl, rfl⟩
  · intro i hi
    have hb := k.budget i hi
    unfold partPages at hb ⊢
    rw [hns, tally_succ, ← hnr, hp]
    rw [← hnr] at hb
    by_cases hip : i = part
    · rw [hip, load_store_same, if_pos (beq_self_eq_true part)]
      rw [hip] at hb
      have hbw := hw.budget
      change _ = NVMeVirt.budget spp f .user + _
      omega
    · rw [load_store_other _ _ hip, if_neg (by simpa using Ne.symm hip)]
      exact hb
  · intro i j hnot
    have hold := k.maptbl i j (fun lpn h₁ h₂ => hnot lpn h₁ (by omega))
    rw [hns, ← hold]
    by_cases hip : i = part
    · rw [hip, load_store_same]
      change f.maptbl j = _
      rw [hw.maptbl, Function.update_of_ne]
      rintro rfl
      rw [← hnr] at hnot
      exact hnot (first + n) (by omega) (by omega) ⟨hp.trans hip.symm, rfl⟩
    · rw [load_store_other _ _ hip]
  · have hb := k.bytes
    have hpart' : NVMeVirt.openPart spp { f with ssd := ssd } = NVMeVirt.openPart spp f := rfl
    rw [hpart'] at hsum
    rw [hns, hops, Nat.add_one_mul]
    omega
  · intro op hop
    rcases heach op hop with hold | hnew
    · exact k.each op hold
    · exact hnew

theorem writeOneLpn_sat {first n : Nat} {w : WriteState} (k : Writing spp M ns first n w)
    (g : Geometry spp) (req : NvmevRequest) (stime : Nat)
    (hl : (first + n) / ns.nrParts < spp.ttPgs) :
    Sat (writeOneLpn clk spp req stime (first + n) w) (Writing spp M ns first (n+1))
      (WriteExcuse spp M ns (n+1)) := by
  have hpart : (first + n) % w.ns.nrParts < w.ns.nrParts := Nat.mod_lt _ k.ok.parts_pos
  unfold writeOneLpn
  refine ((convWritePage_sat g (k.ok.sound _ hpart) (fun hM => k.ok.map hM _ hpart) _).mono
    (fun _ hp => hp) ?_).bind ?_
  · rintro _ (he | he | he | he)
    · exact Or.inr (Or.inr (Or.inl he))
    · rw [k.shell.nrParts] at he
      exact absurd hl (Nat.not_lt.mpr he)
    · rw [k.shell.nrParts] at hpart he
      have hb := k.budget _ hpart
      have hle := tally_le n (fun k => (first + k) % ns.nrParts == (first + n) % ns.nrParts)
      unfold partPages at hb
      exact Or.inr (Or.inr (Or.inr ⟨_, hpart, by omega⟩))
    · exact Or.inr (Or.inl he)
  rintro ⟨f, ppa⟩ ⟨hs, hm, hw⟩
  dsimp only at hs hm hw ⊢
  split
  · rename_i hlast
    refine ((ssdAdvanceNand_paced clk spp hs.perf _ hw.page.range.ch hw.page.range.lun).mono
      (fun _ hp => hp) (fun _ he => Or.inl he)).bind ?_
    rintro ⟨ssd, t⟩ ⟨hblk, hperf⟩
    refine k.step g hw hs hm hblk hperf rfl ?_ ?_
    · rw [if_pos hlast]
      change bytesOf (w.ops ++ [_]) = _
      rw [bytesOf_append]
      simp [bytesOf]
    · intro op hop
      rcases List.mem_append.mp hop with hold | hnew
      · exact Or.inl hold
      · rw [List.mem_singleton.mp hnew]
        exact Or.inr rfl
  · rename_i hlast
    refine k.step g hw hs hm (show f.ssd.blk = f.ssd.blk from rfl) hs.perf rfl ?_ (fun _ hop => Or.inl hop)
    rw [if_neg hlast]
    rfl

def pageCount (spp : SsdParams) (cmd : NvmeCommand) : Nat := endLpn spp cmd + 1 - startLpn spp cmd

/-- What an accepted write has done before garbage collection. -/
structure Written (spp : SsdParams) (M : Prop) (ns : ConvNs) (cmd : NvmeCommand) (ns' : ConvNs)
    (ops : List InternalOp) : Prop where
  ok : NsOk spp M ns'
  csi : ns'.csi = ns.csi
  nrParts : ns'.nrParts = ns.nrParts
  size : ns'.size = ns.size
  room : lbaToByte (nrLba cmd) ≤ ns.writeBuffer.remaining
  writeBuffer : ns'.writeBuffer =
    { ns.writeBuffer with remaining := ns.writeBuffer.remaining - lbaToByte (nrLba cmd) }
  budget : ∀ i < ns.nrParts, budget spp (ns.load i) .user =
    budget spp (ns'.load i) .user + partPages ns.nrParts (startLpn spp cmd) (pageCount spp cmd) i
  maptbl : ∀ i j, (∀ lpn, startLpn spp cmd ≤ lpn → lpn ≤ endLpn spp cmd →
    ¬ (lpn % ns.nrParts = i ∧ lpn / ns.nrParts = j)) → (ns'.load i).maptbl j = (ns.load i).maptbl j
  bytes : bytesOf ops + openBytes spp ns' = openBytes spp ns + pageCount spp cmd * spp.pgsz
  each : ∀ op ∈ ops, op.buffsToRelease = spp.pgsPerOneshotpg * spp.pgsz

theorem convWrite_sat (k : NsOk spp M ns) (g : Geometry spp) (req : NvmevRequest) :
    Sat (convWrite clk spp ns req)
      (fun r => ∀ ns' ret ops, r = some (ns', ret, ops) → Written spp M ns req.cmd ns' ops)
      (WriteExcuse spp M ns (pageCount spp req.cmd)) := by
  unfold convWrite
  dsimp only
  rw [if_neg (Nat.ne_of_gt k.parts_pos)]
  split
  · intro _ _ _ hp
    exact nomatch hp
  · rename_i hlast
    have hlast := Nat.not_le.mp hlast
    split
    · intro _ _ _ hp
      exact nomatch hp
    · rename_i halloc
      have hpos : 0 < lbaToByte (nrLba req.cmd) :=
        Nat.mul_pos (Nat.succ_pos _) (Nat.two_pow_pos lbaBits)
      obtain ⟨hroom, hbuf⟩ := bufferAllocate_room hpos halloc
      rw [hbuf]
      generalize hns₁ : ({ ns with writeBuffer := { ns.writeBuffer with
        remaining := ns.writeBuffer.remaining - lbaToByte (nrLba req.cmd) } } : ConvNs) = ns₁
      have hload : ∀ i, ns₁.load i = ns.load i := fun i => by subst hns₁; rfl
      have hnr : ns₁.nrParts = ns.nrParts := by subst hns₁; rfl
      have k₁ : NsOk spp M ns₁ := by
        refine ⟨by subst hns₁; exact k.csi, by rw [hnr]; exact k.parts_pos, ?_, ?_⟩
        · intro i hi
          rw [hload]
          exact k.sound i (hnr ▸ hi)
        · intro hM i hi
          rw [hload]
          exact k.map hM i (hnr ▸ hi)
      have hopen₁ : openBytes spp ns₁ = openBytes spp ns := by
        unfold openBytes
        rw [hnr]
        simp only [hload]
      have hp₁ : 0 < ns₁.nrParts := k₁.parts_pos
      refine ((ssdAdvanceWriteBuffer_paced clk spp (k₁.sound 0 hp₁).perf _ _).mono
        (fun _ hp => hp) (fun _ he => Or.inl he)).bind ?_
      rintro ⟨ssd, t⟩ ⟨hblk, hperf⟩
      dsimp only at hblk hperf ⊢
      have k₂ := k₁.sleep hp₁ hblk hperf
      have hid := idle_store hblk
      generalize ns₁.store 0 { ns₁.load 0 with ssd := ssd } = ns₂ at *
      have hstart : Writing spp M ns₂ (startLpn spp req.cmd) 0 ⟨ns₂, t, []⟩ :=
        ⟨k₂, SameShell.refl ns₂, fun _ _ => rfl, fun _ _ _ => rfl,
          by rw [Nat.zero_mul]; exact Nat.zero_add _, fun _ hop => nomatch hop⟩
      have hnr₂ : ns₂.nrParts = ns.nrParts := hid.shell.nrParts.trans hnr
      have hbud₂ : ∀ i, budget spp (ns₂.load i) .user = budget spp (ns.load i) .user := by
        intro i
        obtain ⟨ssd', he, _⟩ := hid.slept i
        rw [he, hload]
        rfl
      unfold writeLpns
      refine Sat.bind (R := Writing spp M ns₂ (startLpn spp req.cmd) (pageCount spp req.cmd)) ?_ ?_
      · refine (upto_sat (fun n w => Writing spp M ns₂ (startLpn spp req.cmd) n w) _ hstart ?_)
        intro n hn w kw
        refine (writeOneLpn_sat kw g req t ?_).mono (fun _ hp => hp) ?_
        · rw [hnr₂]
          exact Nat.lt_of_le_of_lt (Nat.div_le_div_right (by omega)) hlast
        · rintro _ (he | he | he | ⟨i, hi, he⟩)
          · exact Or.inl he
          · exact Or.inr (Or.inl he)
          · exact Or.inr (Or.inr (Or.inl he))
          · refine Or.inr (Or.inr (Or.inr ⟨i, hnr₂ ▸ hi, ?_⟩))
            rw [← hbud₂]
            unfold pageCount
            omega
      · intro w kw ns' ret ops hp
        cases hp
        have hsh := kw.shell
        have hsh₂ := hid.shell
        refine ⟨kw.ok, ?_, hsh.nrParts.trans hnr₂, ?_, hroom, ?_, ?_, ?_, ?_, kw.each⟩
        · rw [hsh.csi, hsh₂.csi, ← hns₁]
        · rw [hsh.size, hsh₂.size, ← hns₁]
        · rw [hsh.writeBuffer, hsh₂.writeBuffer, ← hns₁]
        · intro i hi
          rw [← hbud₂, kw.budget i (hnr₂.symm ▸ hi), hnr₂]
        · intro i j hnot
          rw [kw.maptbl i j]
          · obtain ⟨ssd', he, _⟩ := hid.slept i
            rw [he, hload]
          · intro lpn h₁ h₂
            rw [hnr₂]
            exact hnot lpn h₁ (by unfold pageCount at h₂; omega)
        · rw [kw.bytes, hid.openBytes, hopen₁]

end NVMeVirt
