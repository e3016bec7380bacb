import NVMeVirt.ConvConsistency
import NVMeVirt.ConvSteps

/-!
# The order in which a line is written

One pair of `get_new_page` and `advance_write_pointer` after the other walks a write pointer through
its line. Whatever runs between and inside the pairs leaves the pointer alone: no other function
moves it.
-/

namespace NVMeVirt
set_option autoImplicit false
open Outcome Digits

variable {clk : Nat → Nat} {spp : SsdParams} {io : IoType} {s s' s₀ : ConvFtl} {ppas : List Ppa}

/-- The lines of every geometry that `ssd_init_params` computes. -/
theorem ssdInitParams_wordlines {cfg : SsdConfig} {size n : Nat} (h : ssdInitParams cfg size n = .ok spp) :
    Wordlines spp := by
  obtain ⟨_, p⟩ := ssdInitParams_produced h
  have hdies := blksAndSize_dies p.blks
  refine ⟨?_, ?_, p.oneshot_pos, p.blk, ?_⟩
  · rw [p.nchs]
    exact Nat.pos_of_mul_pos_left hdies
  · rw [p.luns]
    exact Nat.pos_of_mul_pos_left (Nat.pos_of_mul_pos_right hdies)
  · -- the product of two ints fits an unsigned long
    have hlt := Nat.mul_lt_mul'' p.luns_lt p.blk_lt
    rw [p.line, p.ttLuns, Nat.mul_comm spp.nchs]
    exact u64_eq (Nat.lt_of_lt_of_le hlt (by decide))

/-- A write pointer at the start of its line. -/
structure FreshWp (spp : SsdParams) (wp : WritePointer) : Prop where
  line : wp.curline < spp.blksPerPl
  blk : wp.blk = wp.curline
  ch : wp.ch = 0
  lun : wp.lun = 0
  pg : wp.pg = 0
  pl : wp.pl = 0

/-- The pages of the pairs since `s₀`, in order. -/
inductive PairRun (spp : SsdParams) (io : IoType) (s₀ : ConvFtl) : List Ppa → ConvFtl → Prop where
  | start : PairRun spp io s₀ [] s₀
  | pair {ppas : List Ppa} {s s₁ s₂ s' : ConvFtl} {ppa : Ppa} : PairRun spp io s₀ ppas s →
      getWp s₁ io = getWp s io → getNewPage s₁ io = .ok ppa →
      getWp s₂ io = getWp s₁ io → advanceWritePointer spp s₂ io = .ok s' →
      PairRun spp io s₀ (ppas ++ [ppa]) s'

/-- The address that `get_new_page` makes of the place of a pointer. -/
def newPage (c l x p : Nat) : Ppa :=
  pageAt (c % 2^chBits) (l % 2^lunBits) (x % 2^blkBits) (p % 2^pageBits)

/-- Every page of line `x` has an address. -/
def LineAddressable (spp : SsdParams) (x : Nat) : Prop :=
  ∀ c < spp.nchs, ∀ l < spp.lunsPerCh, ∀ p < spp.pgsPerBlk,
    c < 2^chBits ∧ l < 2^lunBits ∧ x < 2^blkBits ∧ p < 2^pageBits

theorem newPage_eq {x c l p : Nat} (h : LineAddressable spp x) (hc : c < spp.nchs) (hl : l < spp.lunsPerCh)
    (hp : p < spp.pgsPerBlk) : newPage c l x p = pageAt c l x p := by
  obtain ⟨h₁, h₂, h₃, h₄⟩ := h c hc l hl p hp
  unfold newPage
  rw [Nat.mod_eq_of_lt h₁, Nat.mod_eq_of_lt h₂, Nat.mod_eq_of_lt h₃, Nat.mod_eq_of_lt h₄]

theorem getNewPage_wp {wp : WritePointer} (h : getWp s io = wp) (hpl : wp.pl = 0) :
    getNewPage s io = .ok (newPage wp.ch wp.lun wp.blk wp.pg) := by
  unfold getNewPage
  dsimp only
  rw [h, hpl, Nat.zero_mod, nvmevAssert_true rfl, ok_bind]
  rfl

theorem pages_pos (g : Wordlines spp) (h : 0 < spp.pgsPerLine) : 0 < spp.pgsPerBlk := by
  rw [g.line_eq] at h
  exact Nat.pos_of_mul_pos_left h

theorem FreshWp.wpOk {wp : WritePointer} (hf : FreshWp spp wp) (g : Wordlines spp) (h : 0 < spp.pgsPerLine) :
    WpOk spp wp ∧ wpIndex spp wp = 0 := by
  refine ⟨⟨?_, ?_, ?_, hf.pl, hf.blk⟩, ?_⟩
  · rw [hf.ch]
    exact g.nchs_pos
  · rw [hf.lun]
    exact g.luns_pos
  · rw [hf.pg]
    exact pages_pos g h
  · unfold wpIndex allocIndex
    rw [hf.ch, hf.lun, hf.pg]
    simp

structure LinePage (spp : SsdParams) where
  ch : Nat
  lun : Nat
  pg : Nat
  ch_lt : ch < spp.nchs
  lun_lt : lun < spp.lunsPerCh
  pg_lt : pg < spp.pgsPerBlk

def LinePage.index (t : LinePage spp) : Nat := allocIndex spp t.ch t.lun t.pg

/-- The address that the page gets in line `x`. -/
def LinePage.ppa (x : Nat) (t : LinePage spp) : Ppa := newPage t.ch t.lun x t.pg

/-- How far the pointer is: the pages so far come in the order of `allocIndex`. -/
structure Walked (spp : SsdParams) (io : IoType) (x : Nat) (ppas : List Ppa) (s : ConvFtl) : Prop where
  pages : ∃ ts : List (LinePage spp), ts.map LinePage.index = List.range ppas.length ∧
    ts.map (LinePage.ppa x) = ppas
  here : ppas.length < spp.pgsPerLine →
    WpOk spp (getWp s io) ∧ (getWp s io).curline = x ∧ wpIndex spp (getWp s io) = ppas.length

theorem PairRun.walked (h : PairRun spp io s₀ ppas s) (g : Wordlines spp) (hf : FreshWp spp (getWp s₀ io))
    (hn : ppas.length ≤ spp.pgsPerLine) : Walked spp io (getWp s₀ io).curline ppas s := by
  induction h with
  | start =>
    refine ⟨⟨[], rfl, rfl⟩, fun hpos => ?_⟩
    obtain ⟨w, hidx⟩ := hf.wpOk g hpos
    exact ⟨w, rfl, hidx⟩
  | @pair ppas s s₁ s₂ s' ppa _ h₁ hnew h₂ hadv ih =>
    rw [List.length_append, List.length_singleton] at hn
    obtain ⟨⟨ts, hidx, hppas⟩, hhere⟩ := ih (by omega)
    obtain ⟨w, hcur, hat⟩ := hhere (by omega)
    rw [getNewPage_wp h₁ w.pl] at hnew
    cases hnew
    refine ⟨⟨ts ++ [⟨_, _, _, w.ch, w.lun, w.pg⟩], ?_, ?_⟩, ?_⟩
    · rw [List.map_append, hidx, List.length_append, List.length_singleton, List.range_succ, ← hat]
      rfl
    · rw [List.map_append, hppas, w.blk, hcur]
      rfl
    · intro hlt
      rw [List.length_append, List.length_singleton] at hlt ⊢
      have hwp : getWp s₂ io = getWp s io := h₂.trans h₁
      rcases advanceWritePointer_cases g (hwp.symm ▸ w) with ⟨wp', hok, w', hcur', hidx'⟩ | ⟨_, hend⟩
      · rw [hok] at hadv
        cases hadv
        rw [getWp_setWp_self]
        rw [hwp] at hcur' hidx'
        exact ⟨w', hcur'.trans hcur, by rw [hidx', hat]⟩
      · rw [hwp, hat] at hend
        omega

/-- There are enough lines and the counters are in order: nothing keeps the pointer from moving on. -/
def unhindered (s : ConvFtl) (x n : Nat) : ConvFtl :=
  { s with lm := { s.lm with lines := fun _ => ⟨x, 0, n, 0⟩, freeLineList := [x] } }

theorem exists_pairRun (g : Wordlines spp) (hf : FreshWp spp (getWp s₀ io))
    (n : Nat) (hn : n ≤ spp.pgsPerLine) :
    ∃ ppas s, PairRun spp io s₀ ppas s ∧ ppas.length = n := by
  induction n with
  | zero => exact ⟨[], s₀, .start, rfl⟩
  | succ n ih =>
    obtain ⟨ppas, s, hrun, hlen⟩ := ih (by omega)
    obtain ⟨w, hcur, hat⟩ := (hrun.walked g hf (by omega)).here (by omega)
    have hwp : getWp (unhindered s (getWp s₀ io).curline spp.pgsPerLine) io = getWp s io := by
      cases io <;> rfl
    obtain ⟨s', hadv⟩ : ∃ s', advanceWritePointer spp (unhindered s (getWp s₀ io).curline spp.pgsPerLine) io =
        .ok s' := by
      rcases advanceWritePointer_cases g (hwp.symm ▸ w) with ⟨wp', hok, _⟩ | ⟨hok, _⟩
      · exact ⟨_, hok⟩
      · rw [hok, hwp]
        unfold closeLine shelveLine getNextFreeLine unhindered
        dsimp only
        rw [if_pos rfl, nvmevAssert_true rfl, ok_bind, pure_eq_ok, ok_bind, w.blk, hcur,
          checkAddr_ok hf.line, ok_bind]
        dsimp only
        rw [checkAddr_ok hf.line, ok_bind, ok_bind, ok_bind, ok_bind, nvmevAssert_true w.pl, ok_bind]
        exact ⟨_, rfl⟩
    refine ⟨_, s', .pair hrun hwp (getNewPage_wp hwp w.pl) rfl hadv, ?_⟩
    rw [List.length_append, List.length_singleton, hlen]

/-- The one-shot page of a page: channel, LUN and number in its block. -/
def wordline (spp : SsdParams) (ppa : Ppa) : Nat × Nat × Nat := (ppa.ch, ppa.lun, ppa.pg / spp.pgsPerOneshotpg)

/-- The turn in which a page comes. -/
def turn (spp : SsdParams) (ppa : Ppa) : Nat := allocIndex spp ppa.ch ppa.lun ppa.pg

theorem turn_eq (spp : SsdParams) (a : Ppa) : turn spp a =
    (((wordline spp a).2.2 * spp.lunsPerCh + (wordline spp a).2.1) * spp.nchs + (wordline spp a).1) *
      spp.pgsPerOneshotpg + a.pg % spp.pgsPerOneshotpg := rfl

structure InLine (spp : SsdParams) (x : Nat) (a : Ppa) : Prop where
  ch : a.ch < spp.nchs
  lun : a.lun < spp.lunsPerCh
  pg : a.pg < spp.pgsPerBlk
  eq : a = pageAt a.ch a.lun x a.pg

theorem InLine.turn_inj {x : Nat} {a b : Ppa} (ha : InLine spp x a) (hb : InLine spp x b) (g : Wordlines spp)
    (h : turn spp a = turn spp b) : a = b := by
  obtain ⟨h₁, h₂, h₃⟩ := allocIndex_inj g ha.ch ha.lun hb.ch hb.lun h
  rw [ha.eq, hb.eq, h₁, h₂, h₃]

theorem InLine.wordline_iff {x : Nat} {a b : Ppa} (ha : InLine spp x a) (hb : InLine spp x b)
    (g : Wordlines spp) :
    wordline spp a = wordline spp b ↔ turn spp a / spp.pgsPerOneshotpg = turn spp b / spp.pgsPerOneshotpg := by
  have hdiv : ∀ a : Ppa, turn spp a / spp.pgsPerOneshotpg =
      ((wordline spp a).2.2 * spp.lunsPerCh + (wordline spp a).2.1) * spp.nchs + (wordline spp a).1 := by
    intro a
    rw [turn_eq, Nat.mul_comm _ spp.pgsPerOneshotpg, Nat.mul_add_div g.oneshot_pos,
      Nat.div_eq_of_lt (Nat.mod_lt _ g.oneshot_pos), Nat.add_zero]
  rw [hdiv, hdiv]
  constructor
  · intro h
    rw [h]
  · intro h
    obtain ⟨h₁, hc⟩ := pair_inj ha.ch hb.ch h
    obtain ⟨hw, hl⟩ := pair_inj ha.lun hb.lun h₁
    exact Prod.ext hc (Prod.ext hl hw)

/-- Pages of line `x`, each of them in its turn from the first one on. -/
structure InTurn (spp : SsdParams) (x : Nat) (ppas : List Ppa) : Prop where
  line : ∀ a ∈ ppas, InLine spp x a
  turns : ppas.map (turn spp) = List.range ppas.length

/-- Where every page has an address, the walk goes through the line page by page. -/
theorem Walked.inTurn {x : Nat} (k : Walked spp io x ppas s) (ha : LineAddressable spp x) :
    InTurn spp x ppas := by
  obtain ⟨ts, hidx, hppas⟩ := k.pages
  have heq : ∀ t : LinePage spp, t.ppa x = pageAt t.ch t.lun x t.pg :=
    fun t => newPage_eq ha t.ch_lt t.lun_lt t.pg_lt
  constructor
  · intro a hmem
    rw [← hppas] at hmem
    obtain ⟨t, _, rfl⟩ := List.mem_map.mp hmem
    rw [heq]
    exact ⟨t.ch_lt, t.lun_lt, t.pg_lt, rfl⟩
  · rw [← hidx, ← hppas, List.map_map]
    apply List.map_congr_left
    intro t _
    change turn spp (t.ppa x) = t.index
    rw [heq]
    rfl

section Turns

variable {x c l : Nat} (k : InTurn spp x ppas) (g : Wordlines spp)

include k

theorem InTurn.pairwise : ppas.Pairwise (fun a b => turn spp a < turn spp b) := by
  rw [← List.pairwise_map, k.turns]
  exact List.pairwise_lt_range

theorem InTurn.turn_at {i : Nat} {a : Ppa} (hi : ppas[i]? = some a) : turn spp a = i := by
  have hmap : (ppas.map (turn spp))[i]? = some (turn spp a) := by
    rw [List.getElem?_map, hi]
    rfl
  rw [k.turns, List.getElem?_range (List.getElem?_eq_some_iff.mp hi).1] at hmap
  exact (Option.some.inj hmap).symm

include g

/-- The pages of a die come in the order of their numbers. -/
theorem InTurn.ordered : ppas.Pairwise (fun a b => a.ch = b.ch → a.lun = b.lun → a.pg < b.pg) := by
  apply k.pairwise.imp_of_mem
  intro a b _ hmb hlt hch hlun
  by_contra hle
  rcases Nat.lt_or_eq_of_le (Nat.not_lt.mp hle) with hpg | hpg
  · have hlt' := allocIndex_lt_of_pg_lt g (k.line b hmb).ch (k.line b hmb).lun hpg
    unfold turn at hlt
    rw [hch, hlun] at hlt
    omega
  · unfold turn at hlt
    rw [hch, hlun, hpg] at hlt
    omega

/-- Between two pages of a wordline come only pages of it. -/
theorem InTurn.together {i j m : Nat} {a b d : Ppa} (hij : i ≤ j) (hjm : j ≤ m) (hi : ppas[i]? = some a)
    (hj : ppas[j]? = some b) (hm : ppas[m]? = some d) (hw : wordline spp a = wordline spp d) :
    wordline spp b = wordline spp a := by
  have ha := k.line a (List.mem_of_getElem? hi)
  have hb := k.line b (List.mem_of_getElem? hj)
  have hd := k.line d (List.mem_of_getElem? hm)
  have heq := (ha.wordline_iff hd g).mp hw
  apply (hb.wordline_iff ha g).mpr
  rw [k.turn_at hi, k.turn_at hm] at heq
  rw [k.turn_at hi, k.turn_at hj]
  exact Nat.le_antisymm (heq ▸ Nat.div_le_div_right hjm) (Nat.div_le_div_right hij)

theorem InTurn.last_only :
    ppas.Pairwise (fun a b => wordline spp a = wordline spp b → lastPgInWordline spp a = false) := by
  apply k.pairwise.imp
  intro a b hlt hw
  by_contra hlast
  unfold lastPgInWordline at hlast
  rw [Bool.not_eq_false, beq_iff_eq] at hlast
  have hmod := Nat.mod_lt b.pg g.oneshot_pos
  rw [turn_eq, turn_eq, hw, hlast] at hlt
  omega

theorem InTurn.count_page {p : Nat} (hn : ppas.length = spp.pgsPerLine) (hc : c < spp.nchs)
    (hl : l < spp.lunsPerCh) (hp : p < spp.pgsPerBlk) : ppas.count (pageAt c l x p) = 1 := by
  have hnodup : ppas.Nodup := by
    have hr : (ppas.map (turn spp)).Nodup := k.turns ▸ List.nodup_range
    exact hr.of_map
  have hmem : turn spp (pageAt c l x p) ∈ ppas.map (turn spp) := by
    rw [k.turns, hn]
    exact List.mem_range.mpr (allocIndex_lt g hc hl hp)
  obtain ⟨a, ha, he⟩ := List.mem_map.mp hmem
  have hpage : InLine spp x (pageAt c l x p) := ⟨hc, hl, hp, rfl⟩
  rw [← (k.line a ha).turn_inj hpage g he]
  exact List.count_eq_one_of_mem hnodup ha

theorem InTurn.countP_last {w : Nat} (hn : ppas.length = spp.pgsPerLine) (hc : c < spp.nchs)
    (hl : l < spp.lunsPerCh) (hw : w < spp.oneshotpgsPerBlk) :
    ppas.countP (fun a => decide (wordline spp a = (c, l, w)) && lastPgInWordline spp a) = 1 := by
  have hP := g.oneshot_pos
  have hq : spp.pgsPerOneshotpg * w + (spp.pgsPerOneshotpg - 1) < spp.pgsPerBlk := by
    have hmul := Nat.mul_le_mul_left spp.pgsPerOneshotpg hw
    rw [Nat.mul_succ] at hmul
    rw [g.blk_oneshot]
    omega
  have hdiv : (spp.pgsPerOneshotpg * w + (spp.pgsPerOneshotpg - 1)) / spp.pgsPerOneshotpg = w := by
    rw [Nat.mul_add_div hP, Nat.div_eq_of_lt (by omega), Nat.add_zero]
  have hmod : (spp.pgsPerOneshotpg * w + (spp.pgsPerOneshotpg - 1)) % spp.pgsPerOneshotpg =
      spp.pgsPerOneshotpg - 1 := by
    rw [Nat.mul_add_mod, Nat.mod_eq_of_lt (by omega)]
  rw [← k.count_page g hn hc hl hq]
  unfold List.count
  apply List.countP_congr
  intro a ha
  rw [Bool.and_eq_true, decide_eq_true_iff, beq_iff_eq]
  unfold lastPgInWordline
  rw [beq_iff_eq]
  constructor
  · rintro ⟨hwl, hlast⟩
    simp only [wordline, Prod.mk.injEq] at hwl
    obtain ⟨h₁, h₂, h₃⟩ := hwl
    have hpg := Nat.div_add_mod a.pg spp.pgsPerOneshotpg
    rw [h₃, hlast] at hpg
    rw [(k.line a ha).eq, h₁, h₂, hpg]
  · rintro rfl
    unfold wordline pageAt
    dsimp only
    exact ⟨by rw [hdiv], hmod⟩

end Turns

/-- `writeOneLpn` with the page that it takes and the NAND command that it issues, if any. -/
def writeOneLpnLogged (clk : Nat → Nat) (spp : SsdParams) (req : NvmevRequest) (stime lpn : Nat)
    (w : WriteState) : Except Fault (WriteState × Ppa × Option NandCmd) := do
  let part := lpn % w.ns.nrParts
  let (f, ppa) ← convWritePage spp (w.ns.load part) (lpn / w.ns.nrParts)
  if lastPgInWordline spp ppa then
    let swr : NandCmd :=
      { type := .user, cmd := .write, xferSize := spp.pgsz * spp.pgsPerOneshotpg, stime := stime,
        interleavePciDma := false, ppa := ppa }
    let (ssd, nsecsCompleted) ← ssdAdvanceNand clk spp f.ssd swr
    return ({ ns := w.ns.store part { f with ssd := ssd }
              nsecsLatest := max nsecsCompleted w.nsecsLatest
              ops := w.ops ++ [⟨req.sqId, nsecsCompleted, spp.pgsPerOneshotpg * spp.pgsz⟩] }, ppa, some swr)
  else return ({ w with ns := w.ns.store part f }, ppa, none)

theorem writeOneLpnLogged_fst (clk : Nat → Nat) (spp : SsdParams) (req : NvmevRequest) (stime lpn : Nat)
    (w : WriteState) :
    (writeOneLpnLogged clk spp req stime lpn w).map Prod.fst = writeOneLpn clk spp req stime lpn w := by
  unfold writeOneLpnLogged writeOneLpn
  dsimp only
  cases convWritePage spp (w.ns.load (lpn % w.ns.nrParts)) (lpn / w.ns.nrParts) with
  | error e => rfl
  | ok r =>
    rw [ok_bind, ok_bind]
    by_cases hlast : lastPgInWordline spp r.2 = true
    · rw [if_pos hlast, if_pos hlast]
      cases ssdAdvanceNand clk spp r.1.ssd _ with
      | error e => rfl
      | ok q => rfl
    · rw [if_neg hlast, if_neg hlast]
      rfl

/-- The pages that host writes have taken in partition `i` since `ns₀`, and the NAND commands that
`conv_write` has issued for them. -/
inductive HostRun (clk : Nat → Nat) (spp : SsdParams) (i : Nat) (ns₀ : ConvNs) :
    List Ppa → List NandCmd → ConvNs → Prop where
  | start : HostRun clk spp i ns₀ [] [] ns₀
  | write {ppas : List Ppa} {cmds : List NandCmd} {ns : ConvNs} {w w' : WriteState} {req : NvmevRequest}
      {stime lpn : Nat} {ppa : Ppa} {cmd : Option NandCmd} : HostRun clk spp i ns₀ ppas cmds ns →
      (w.ns.load i).wp = (ns.load i).wp → lpn % w.ns.nrParts = i →
      writeOneLpnLogged clk spp req stime lpn w = .ok (w', ppa, cmd) →
      HostRun clk spp i ns₀ (ppas ++ [ppa]) (cmds ++ cmd.toList) w'.ns

/-- Dropping the old page of a logical page leaves the write pointers alone. -/
theorem dropOldPage_wp {ppa : Ppa} (h : dropOldPage spp s ppa = .ok s') : s'.wp = s.wp := by
  rcases dropOldPage_steps h with rfl | ⟨_, _, _, _, _, rfl⟩
  · rfl
  · rfl

theorem convWritePage_pair {lpn : Nat} {ppa : Ppa} (h : convWritePage spp s lpn = .ok (s', ppa)) :
    ∃ s₁ s₂, getWp s₁ .user = getWp s .user ∧ getNewPage s₁ .user = .ok ppa ∧
      getWp s₂ .user = getWp s₁ .user ∧ advanceWritePointer spp s₂ .user = .ok s' := by
  unfold convWritePage at h
  obtain ⟨old, _, h⟩ := bind_eq_ok.mp h
  obtain ⟨s₁, hdrop, h⟩ := bind_eq_ok.mp h
  obtain ⟨_, hnew, maptbl, rmap, blk, hadv⟩ := writeNewPage_steps h
  exact ⟨s₁, { s₁ with maptbl := maptbl, rmap := rmap, ssd := _, lm := _ },
    dropOldPage_wp hdrop, hnew, rfl, hadv⟩

/-- Host writes are a walk of the write pointer, and they program the last page of each wordline. -/
theorem HostRun.walk {i : Nat} {ns₀ ns : ConvNs} {cmds : List NandCmd}
    (h : HostRun clk spp i ns₀ ppas cmds ns) :
    (∃ s, PairRun spp .user (ns₀.load i) ppas s ∧ s.wp = (ns.load i).wp) ∧
      cmds.map NandCmd.ppa = ppas.filter (lastPgInWordline spp) ∧ ∀ cmd ∈ cmds, cmd.cmd = .write := by
  induction h with
  | start => exact ⟨⟨_, .start, rfl⟩, rfl, fun _ hmem => nomatch hmem⟩
  | @write ppas cmds ns w w' req stime lpn ppa cmd _ hwp hpart hok ih =>
    obtain ⟨⟨s, hrun, hs⟩, hcmds, hall⟩ := ih
    unfold writeOneLpnLogged at hok
    dsimp only at hok
    rw [hpart] at hok
    obtain ⟨⟨f, ppa'⟩, hpage, hok⟩ := bind_eq_ok.mp hok
    obtain ⟨s₁, s₂, h₁, hnew, h₂, hadv⟩ := convWritePage_pair hpage
    have h₁' : getWp s₁ .user = getWp s .user := h₁.trans (hwp.trans hs.symm)
    dsimp only at hok
    by_cases hlast : lastPgInWordline spp ppa' = true
    · rw [if_pos hlast] at hok
      obtain ⟨⟨ssd, t⟩, _, hok⟩ := bind_eq_ok.mp hok
      cases hok
      refine ⟨⟨f, hrun.pair h₁' hnew h₂ hadv, ?_⟩, ?_, ?_⟩
      · dsimp only
        rw [load_store_same]
      · rw [List.map_append, hcmds, List.filter_append, List.filter_cons_of_pos hlast]
        rfl
      · intro cmd hmem
        rcases List.mem_append.mp hmem with hmem | hmem
        · exact hall cmd hmem
        · rw [List.mem_singleton.mp hmem]
    · rw [if_neg hlast] at hok
      cases hok
      refine ⟨⟨f, hrun.pair h₁' hnew h₂ hadv, ?_⟩, ?_, ?_⟩
      · dsimp only
        rw [load_store_same]
      · rw [Option.toList_none, List.append_nil, hcmds, List.filter_append, List.filter_cons_of_neg hlast,
          List.filter_nil, List.append_nil]
      · rw [Option.toList_none, List.append_nil]
        exact hall

/-- What the pairs of one line, the programs among them included, do. -/
structure LineWalk (spp : SsdParams) (io : IoType) (s₀ : ConvFtl) : Prop where
  gives : ∀ ppas s s₁, PairRun spp io s₀ ppas s → ppas.length < spp.pgsPerLine → getWp s₁ io = getWp s io →
    ∃ ppa, getNewPage s₁ io = .ok ppa
  stays : ∀ ppas s s₁, PairRun spp io s₀ ppas s → ppas.length + 1 < spp.pgsPerLine → getWp s₁ io = getWp s io →
    ∃ s', advanceWritePointer spp s₁ io = .ok s' ∧ (getWp s' io).curline = (getWp s₀ io).curline
  leaves : ∀ ppas s s₁ s', PairRun spp io s₀ ppas s → ppas.length + 1 = spp.pgsPerLine →
    getWp s₁ io = getWp s io → advanceWritePointer spp s₁ io = .ok s' →
    (getWp s' io).curline ∈ s₁.lm.freeLineList ∧
      ((getWp s₀ io).curline ∉ s₁.lm.freeLineList → (getWp s' io).curline ≠ (getWp s₀ io).curline)
  once : ∀ ppas s, PairRun spp io s₀ ppas s → ppas.length = spp.pgsPerLine →
    ∀ c < spp.nchs, ∀ l < spp.lunsPerCh, ∀ p < spp.pgsPerBlk,
      ppas.count (pageAt c l (getWp s₀ io).curline p) = 1
  ordered : ∀ ppas s, PairRun spp io s₀ ppas s → ppas.length ≤ spp.pgsPerLine →
    ppas.Pairwise (fun a b => a.ch = b.ch → a.lun = b.lun → a.pg < b.pg)
  together : ∀ ppas s, PairRun spp io s₀ ppas s → ppas.length ≤ spp.pgsPerLine →
    ∀ (i j k : Nat) (a b c : Ppa), i ≤ j → j ≤ k → ppas[i]? = some a → ppas[j]? = some b → ppas[k]? = some c →
      wordline spp a = wordline spp c → wordline spp b = wordline spp a
  last_only : ∀ ppas s, PairRun spp io s₀ ppas s → ppas.length ≤ spp.pgsPerLine →
    ppas.Pairwise (fun a b => wordline spp a = wordline spp b → lastPgInWordline spp a = false)
  last_once : ∀ ppas s, PairRun spp io s₀ ppas s → ppas.length = spp.pgsPerLine →
    ∀ c < spp.nchs, ∀ l < spp.lunsPerCh, ∀ w < spp.oneshotpgsPerBlk,
      ppas.countP (fun a => decide (wordline spp a = (c, l, w)) && lastPgInWordline spp a) = 1
  programs : io = .user → ∀ clk i ns₀ ppas cmds ns, ns₀.load i = s₀ → HostRun clk spp i ns₀ ppas cmds ns →
    ppas.length = spp.pgsPerLine → ∀ c < spp.nchs, ∀ l < spp.lunsPerCh, ∀ w < spp.oneshotpgsPerBlk,
      cmds.countP (fun cmd => decide (cmd.cmd = .write) && decide (wordline spp cmd.ppa = (c, l, w))) = 1

theorem shelveLine_freeList {lm lm' : LineMgmt} {x : Nat} (h : shelveLine spp lm x = .ok lm') :
    lm'.freeLineList = lm.freeLineList := by
  unfold shelveLine at h
  dsimp only at h
  split at h
  · obtain ⟨_, h⟩ := nvmevAssert_bind_ok.mp h
    cases h
    rfl
  · obtain ⟨_, h⟩ := nvmevAssert_bind_ok.mp h
    obtain ⟨_, h⟩ := nvmevAssert_bind_ok.mp h
    obtain ⟨⟨pq, lines⟩, _, h⟩ := bind_eq_ok.mp h
    cases h
    rfl

theorem closeLine_curline {wpp : WritePointer} (h : closeLine spp s io wpp = .ok s') :
    (getWp s' io).curline ∈ s.lm.freeLineList := by
  unfold closeLine at h
  obtain ⟨lm, hlm, h⟩ := bind_eq_ok.mp h
  obtain ⟨_, _, h⟩ := bind_eq_ok.mp h
  rw [← shelveLine_freeList hlm]
  unfold getNextFreeLine at h
  cases hl : lm.freeLineList with
  | nil =>
    rw [hl] at h
    cases h
  | cons y rest =>
    rw [hl] at h
    dsimp only at h
    obtain ⟨_, _, h⟩ := bind_eq_ok.mp h
    obtain ⟨_, h⟩ := nvmevAssert_bind_ok.mp h
    obtain ⟨_, h⟩ := nvmevAssert_bind_ok.mp h
    obtain ⟨_, h⟩ := nvmevAssert_bind_ok.mp h
    obtain ⟨_, h⟩ := nvmevAssert_bind_ok.mp h
    cases h
    rw [getWp_setWp_self]
    exact List.mem_cons_self

theorem PairRun.stays (h : PairRun spp io s₀ ppas s) (g : Wordlines spp) (hf : FreshWp spp (getWp s₀ io))
    (hn : ppas.length + 1 < spp.pgsPerLine) {s₁ : ConvFtl} (hwp : getWp s₁ io = getWp s io) :
    ∃ s', advanceWritePointer spp s₁ io = .ok s' ∧ (getWp s' io).curline = (getWp s₀ io).curline := by
  obtain ⟨w, hcur, hat⟩ := (h.walked g hf (by omega)).here (by omega)
  rcases advanceWritePointer_cases g (hwp.symm ▸ w) with ⟨wp', hok, _, hcur', _⟩ | ⟨_, hend⟩
  · refine ⟨_, hok, ?_⟩
    rw [getWp_setWp_self, hcur', hwp, hcur]
  · rw [hwp, hat] at hend
    omega

theorem PairRun.leaves (h : PairRun spp io s₀ ppas s) (g : Wordlines spp) (hf : FreshWp spp (getWp s₀ io))
    (hn : ppas.length + 1 = spp.pgsPerLine) {s₁ : ConvFtl} (hwp : getWp s₁ io = getWp s io)
    (hadv : advanceWritePointer spp s₁ io = .ok s') : (getWp s' io).curline ∈ s₁.lm.freeLineList := by
  obtain ⟨w, _, hat⟩ := (h.walked g hf (by omega)).here (by omega)
  rcases advanceWritePointer_cases g (hwp.symm ▸ w) with ⟨wp', _, w', _, hidx'⟩ | ⟨hclose, _⟩
  · have hlt := w'.index_lt g
    rw [hidx', hwp, hat] at hlt
    omega
  · rw [hclose] at hadv
    exact closeLine_curline hadv

theorem HostRun.countP_programs {i : Nat} {ns₀ ns : ConvNs} {cmds : List NandCmd}
    (h : HostRun clk spp i ns₀ ppas cmds ns) (wl : Nat × Nat × Nat) :
    cmds.countP (fun cmd => decide (cmd.cmd = .write) && decide (wordline spp cmd.ppa = wl)) =
      ppas.countP (fun a => decide (wordline spp a = wl) && lastPgInWordline spp a) := by
  obtain ⟨_, hcmds, hall⟩ := h.walk
  calc cmds.countP (fun cmd => decide (cmd.cmd = .write) && decide (wordline spp cmd.ppa = wl))
      = cmds.countP ((fun a => decide (wordline spp a = wl)) ∘ NandCmd.ppa) := by
        apply List.countP_congr
        intro cmd hmem
        rw [hall cmd hmem]
        rfl
    _ = ppas.countP (fun a => decide (wordline spp a = wl) && lastPgInWordline spp a) := by
        rw [← List.countP_map, hcmds, List.countP_filter]

theorem LineAddressable.lineWalk (ha : LineAddressable spp (getWp s₀ io).curline) (g : Wordlines spp)
    (hf : FreshWp spp (getWp s₀ io)) : LineWalk spp io s₀ := by
  have hturn : ∀ {ppas s}, PairRun spp io s₀ ppas s → ppas.length ≤ spp.pgsPerLine →
      InTurn spp (getWp s₀ io).curline ppas := fun hrun hn => (hrun.walked g hf hn).inTurn ha
  constructor
  · intro ppas s s₁ hrun hn hwp
    obtain ⟨w, _, _⟩ := (hrun.walked g hf (le_of_lt hn)).here hn
    exact ⟨_, getNewPage_wp hwp w.pl⟩
  · intro ppas s s₁ hrun hn hwp
    exact hrun.stays g hf hn hwp
  · intro ppas s s₁ s' hrun hn hwp hadv
    have hmem := hrun.leaves g hf hn hwp hadv
    exact ⟨hmem, fun hnot he => hnot (he ▸ hmem)⟩
  · intro ppas s hrun hn c hc l hl p hp
    exact (hturn hrun (le_of_eq hn)).count_page g hn hc hl hp
  · intro ppas s hrun hn
    exact (hturn hrun hn).ordered g
  · intro ppas s hrun hn i j k a b c hij hjk hai hbj hck hw
    exact (hturn hrun hn).together g hij hjk hai hbj hck hw
  · intro ppas s hrun hn
    exact (hturn hrun hn).last_only g
  · intro ppas s hrun hn c hc l hl w hw
    exact (hturn hrun (le_of_eq hn)).countP_last g hn hc hl hw
  · rintro rfl clk i ns₀ ppas cmds ns rfl hrun hn c hc l hl w hw
    obtain ⟨⟨s, hpairs, _⟩, _, _⟩ := hrun.walk
    rw [hrun.countP_programs]
    exact (hturn hpairs (le_of_eq hn)).countP_last g hn hc hl hw

theorem LineWalk.addressable (k : LineWalk spp io s₀) (g : Wordlines spp) (hf : FreshWp spp (getWp s₀ io)) :
    LineAddressable spp (getWp s₀ io).curline := by
  intro c hc l hl p hp
  obtain ⟨ppas, s, hrun, hn⟩ := exists_pairRun g hf spp.pgsPerLine (Nat.le_refl _)
  have hcount := k.once ppas s hrun hn c hc l hl p hp
  have hmem : pageAt c l (getWp s₀ io).curline p ∈ ppas := List.count_pos_iff.mp (by omega)
  obtain ⟨ts, _, hppas⟩ := (hrun.walked g hf (by omega)).pages
  rw [← hppas] at hmem
  obtain ⟨t, _, he⟩ := List.mem_map.mp hmem
  unfold LinePage.ppa newPage pageAt at he
  rw [Ppa.mk.injEq] at he
  obtain ⟨hpg, hblk, _, hlun, hch, _⟩ := he
  refine ⟨hch ▸ Nat.mod_lt _ (by decide), hlun ▸ Nat.mod_lt _ (by decide), hblk ▸ Nat.mod_lt _ (by decide),
    hpg ▸ Nat.mod_lt _ (by decide)⟩

/-- A pointer that `prepare_write_pointer` has set up. -/
theorem prepareWritePointer_fresh (h : prepareWritePointer s io = .ok s')
    (hlines : ∀ x ∈ s.lm.freeLineList, x < spp.blksPerPl ∧ (s.lm.lines x).id = x) :
    FreshWp spp (getWp s' io) := by
  unfold prepareWritePointer getNextFreeLine at h
  cases hl : s.lm.freeLineList with
  | nil =>
    rw [hl] at h
    cases h
  | cons x rest =>
    rw [hl] at h
    cases h
    obtain ⟨hx, hid⟩ := hlines x (hl ▸ List.mem_cons_self)
    rw [getWp_setWp_self]
    exact ⟨hx, hid, rfl, rfl, rfl, rfl⟩

/-- A write pointer walks its line in order, page by page, exactly when the bit fields of an address
hold every page of the line. -/
theorem line_walk_iff {cfg : SsdConfig} {size n : Nat} (h : ssdInitParams cfg size n = .ok spp)
    (hf : FreshWp spp (getWp s₀ io)) : LineWalk spp io s₀ ↔ LineAddressable spp (getWp s₀ io).curline :=
  ⟨fun k => k.addressable (ssdInitParams_wordlines h) hf, fun ha => ha.lineWalk (ssdInitParams_wordlines h) hf⟩

/-- The first line of a partition is prepared for host writes. -/
theorem line_walk_iff_first : ∃ spp lm s₀, initLines spp zeroLeftover = .ok lm ∧
    prepareWritePointer { (default : ConvFtl) with lm := lm } .user = .ok s₀ ∧
    (LineWalk spp .user s₀ ↔ LineAddressable spp (getWp s₀ .user).curline) := by
  obtain ⟨spp, lm, s₀, hspp, hlm, hlines, hprep⟩ : ∃ spp lm s₀,
      ssdInitParams twoPartitions.toSsdConfig 90112 2 = .ok spp ∧ initLines spp zeroLeftover = .ok lm ∧
      (∀ x ∈ lm.freeLineList, x < spp.blksPerPl ∧ (lm.lines x).id = x) ∧
      prepareWritePointer { (default : ConvFtl) with lm := lm } .user = .ok s₀ :=
    ⟨_, _, _, rfl, rfl, fun x hx => ⟨List.mem_range.mp hx, rfl⟩, rfl⟩
  exact ⟨spp, lm, s₀, hlm, hprep, line_walk_iff hspp (prepareWritePointer_fresh hprep hlines)⟩

/-- At 256 TiB a block of the SAMSUNG_970PRO configuration has more pages than the `pg` field counts. -/
theorem pro_params_256TiB : ∃ spp, ssdInitParams convSamsung970Pro.toSsdConfig (2^48)
      convSamsung970Pro.ssdPartitions = .ok spp ∧
    spp.blksPerPl = spp.ttLines ∧ spp.blksPerPl = 8192 ∧ spp.pgsPerBlk = 2^17 :=
  ⟨_, rfl, rfl, rfl, rfl⟩

theorem line_walk_fails_256TiB : ∃ spp ns, convInitNamespace convSamsung970Pro.toSsdConfig
      (fun _ => zeroLeftover) (2^48) = .ok (spp, ns) ∧ ¬ LineWalk spp .user (ns.load 0) := by
  obtain ⟨spp, hspp, hl, hblks, hpg⟩ := pro_params_256TiB
  have hinit := convInitNamespace_eq hspp hl (by omega) (fun _ => zeroLeftover)
  have hf := convInitNamespace_ok hinit
  have g := ssdInitParams_wordlines hspp
  have hwp : getWp ((freshNs convSamsung970Pro.toSsdConfig (fun _ => zeroLeftover) (2^48) spp).load 0) .user =
      ⟨0, 0, 0, 0, 0, 0⟩ := by
    rw [hf.load 0 hf.parts_pos]
    rfl
  refine ⟨spp, _, hinit, ?_⟩
  intro k
  have ha := k.addressable g (by
    rw [hwp]
    refine ⟨?_, rfl, rfl, rfl, rfl, rfl⟩
    change 0 < spp.blksPerPl
    omega)
  have hfield := (ha 0 g.nchs_pos 0 g.luns_pos (2^16) (by omega)).2.2.2
  exact absurd hfield (by decide)

end NVMeVirt
