import NVMeVirt.Lib.Digits
import NVMeVirt.ConvFtl
import Mathlib.Tactic.GCongr

/-!
# Page addresses of a partition

Two numberings of pages: `pageIndex` is the position of a page in `rmap`, `allocIndex` is
the turn in which the write pointer of its line reaches it (wordline, then LUN, then
channel, then page of the one-shot page).
-/

namespace NVMeVirt
set_option autoImplicit false
open Outcome Digits

/-- The geometry that `ssd_init_params` computes for one plane per LUN. -/
structure Geometry (spp : SsdParams) : Prop where
  nchs_pos : 0 < spp.nchs
  luns_pos : 0 < spp.lunsPerCh
  pls_eq : spp.plsPerLun = 1
  blks_le : spp.blksPerPl ≤ 2^blkBits
  oneshot_pos : 0 < spp.pgsPerOneshotpg
  flash_pos : 0 < spp.pgsPerFlashpg
  blk_pos : 0 < spp.pgsPerBlk
  blk_oneshot : spp.pgsPerBlk = spp.pgsPerOneshotpg * spp.oneshotpgsPerBlk
  blk_flash : spp.pgsPerBlk = spp.pgsPerFlashpg * spp.flashpgsPerBlk
  line_eq : spp.pgsPerLine = spp.nchs * spp.lunsPerCh * spp.pgsPerBlk
  lines_eq : spp.ttLines = spp.blksPerPl
  pl_eq : spp.pgsPerPl = spp.pgsPerBlk * spp.blksPerPl
  lun_eq : spp.pgsPerLun = spp.pgsPerPl
  ch_eq : spp.pgsPerCh = spp.pgsPerLun * spp.lunsPerCh
  tt_eq : spp.ttPgs = spp.pgsPerCh * spp.nchs
  tt_lt : spp.ttPgs < 2^64

/-- The one-shot pages of a line lie on all dies. -/
structure Wordlines (spp : SsdParams) : Prop where
  nchs_pos : 0 < spp.nchs
  luns_pos : 0 < spp.lunsPerCh
  oneshot_pos : 0 < spp.pgsPerOneshotpg
  blk_oneshot : spp.pgsPerBlk = spp.pgsPerOneshotpg * spp.oneshotpgsPerBlk
  line_eq : spp.pgsPerLine = spp.nchs * spp.lunsPerCh * spp.pgsPerBlk

theorem Geometry.wordlines {spp : SsdParams} (g : Geometry spp) : Wordlines spp :=
  ⟨g.nchs_pos, g.luns_pos, g.oneshot_pos, g.blk_oneshot, g.line_eq⟩

/-- Every page address of the partition fits the bit fields of `struct ppa`. -/
structure Fits (spp : SsdParams) : Prop where
  nchs_le : spp.nchs ≤ 2^chBits
  luns_le : spp.lunsPerCh ≤ 2^lunBits
  pgs_le : spp.pgsPerBlk ≤ 2^pageBits

variable (spp : SsdParams)

/-- A page of line `x`: channel `c`, LUN `l`, page `p`. -/
structure InRange (c l x p : Nat) : Prop where
  ch : c < spp.nchs
  lun : l < spp.lunsPerCh
  blk : x < spp.blksPerPl
  pg : p < spp.pgsPerBlk

def pageAt (c l x p : Nat) : Ppa := ⟨p, x, 0, l, c, 0⟩

@[simp] theorem pageAt_addr (c l x p : Nat) : (pageAt c l x p).addr = ⟨c, l, 0, x⟩ := rfl

def allocIndex (c l p : Nat) : Nat :=
  ((p / spp.pgsPerOneshotpg * spp.lunsPerCh + l) * spp.nchs + c) * spp.pgsPerOneshotpg +
    p % spp.pgsPerOneshotpg

def pageIndex (c l x p : Nat) : Nat :=
  c * spp.pgsPerCh + l * spp.pgsPerLun + x * spp.pgsPerBlk + p

variable {spp}

theorem InRange.validPpa (g : Geometry spp) {c l x p : Nat} (h : InRange spp c l x p) :
    validPpa spp (pageAt c l x p) :=
  ⟨h.ch, h.lun, by rw [g.pls_eq]; exact Nat.zero_lt_one, h.blk, h.pg⟩

/-- The addresses that `valid_ppa` accepts are the pages of the partition. -/
theorem validPpa_inRange (g : Geometry spp) {ppa : Ppa} (h : validPpa spp ppa) :
    InRange spp ppa.ch ppa.lun ppa.blk ppa.pg ∧ ppa.pl = 0 := by
  obtain ⟨hc, hl, hp, hb, hg⟩ := h
  rw [g.pls_eq] at hp
  exact ⟨⟨hc, hl, hb, hg⟩, by omega⟩

theorem mappedPpa_pageAt (c l x p : Nat) : mappedPpa (pageAt c l x p) = true := by
  have hne : pageAt c l x p ≠ unmappedPpa := by
    intro h
    have hr := congrArg Ppa.rsv h
    simp [pageAt, unmappedPpa, rsbBits, blkBits, pageBits, plBits, lunBits, chBits] at hr
  simp [mappedPpa, hne]

theorem mappedPpa_iff {ppa : Ppa} : mappedPpa ppa = true ↔ ppa ≠ unmappedPpa := by
  unfold mappedPpa
  rw [Bool.not_eq_true', beq_eq_false_iff_ne]

theorem mappedPpa_eq {a b : Ppa} (h : a = unmappedPpa ↔ b = unmappedPpa) : mappedPpa a = mappedPpa b := by
  unfold mappedPpa
  congr 1
  rw [Bool.eq_iff_iff, beq_iff_eq, beq_iff_eq]
  exact h

theorem pageIndex_nested (g : Geometry spp) (c l x p : Nat) :
    pageIndex spp c l x p =
      ((c * spp.lunsPerCh + l) * spp.blksPerPl + x) * spp.pgsPerBlk + p := by
  rw [pageIndex, g.ch_eq, g.lun_eq, g.pl_eq]
  ring

theorem pageIndex_lt (g : Geometry spp) {c l x p : Nat} (h : InRange spp c l x p) :
    pageIndex spp c l x p < spp.ttPgs := by
  rw [pageIndex_nested g, g.tt_eq, g.ch_eq, g.lun_eq, g.pl_eq]
  calc ((c * spp.lunsPerCh + l) * spp.blksPerPl + x) * spp.pgsPerBlk + p
      < spp.nchs * spp.lunsPerCh * spp.blksPerPl * spp.pgsPerBlk :=
        pair_lt (pair_lt (pair_lt h.ch h.lun) h.blk) h.pg
    _ = spp.pgsPerBlk * spp.blksPerPl * spp.lunsPerCh * spp.nchs := by ring

theorem pageIndex_inj (g : Geometry spp) {c l x p c' l' x' p' : Nat} (h : InRange spp c l x p)
    (h' : InRange spp c' l' x' p') (he : pageIndex spp c l x p = pageIndex spp c' l' x' p') :
    c = c' ∧ l = l' ∧ x = x' ∧ p = p' := by
  rw [pageIndex_nested g, pageIndex_nested g] at he
  obtain ⟨h₁, hp⟩ := pair_inj h.pg h'.pg he
  obtain ⟨h₂, hx⟩ := pair_inj h.blk h'.blk h₁
  obtain ⟨hc, hl⟩ := pair_inj h.lun h'.lun h₂
  exact ⟨hc, hl, hx, hp⟩

theorem ppa2pgidx_pageAt (g : Geometry spp) {c l x p : Nat} (h : InRange spp c l x p) :
    ppa2pgidx spp (pageAt c l x p) = .ok (pageIndex spp c l x p) := by
  have hlt := pageIndex_lt g h
  have hu : u64 (c * spp.pgsPerCh + l * spp.pgsPerLun + 0 * spp.pgsPerPl + x * spp.pgsPerBlk + p) =
      pageIndex spp c l x p := by
    rw [Nat.zero_mul, Nat.add_zero]
    exact Nat.mod_eq_of_lt (Nat.lt_trans hlt g.tt_lt)
  simp only [ppa2pgidx, pageAt, hu, nvmevAssert_true hlt, ok_bind, pure_eq_ok]

theorem wordline_lt (g : Wordlines spp) {p : Nat} (h : p < spp.pgsPerBlk) :
    p / spp.pgsPerOneshotpg < spp.oneshotpgsPerBlk := by
  rw [g.blk_oneshot] at h
  exact Nat.div_lt_of_lt_mul h

theorem allocIndex_lt (g : Wordlines spp) {c l p : Nat} (hc : c < spp.nchs) (hl : l < spp.lunsPerCh)
    (hp : p < spp.pgsPerBlk) : allocIndex spp c l p < spp.pgsPerLine := by
  rw [g.line_eq, g.blk_oneshot]
  calc allocIndex spp c l p
      < spp.oneshotpgsPerBlk * spp.lunsPerCh * spp.nchs * spp.pgsPerOneshotpg :=
        pair_lt (pair_lt (pair_lt (wordline_lt g hp) hl) hc) (Nat.mod_lt _ g.oneshot_pos)
    _ = spp.nchs * spp.lunsPerCh * (spp.pgsPerOneshotpg * spp.oneshotpgsPerBlk) := by ring

theorem allocIndex_inj (g : Wordlines spp) {c l p c' l' p' : Nat} (hc : c < spp.nchs)
    (hl : l < spp.lunsPerCh) (hc' : c' < spp.nchs) (hl' : l' < spp.lunsPerCh)
    (h : allocIndex spp c l p = allocIndex spp c' l' p') : c = c' ∧ l = l' ∧ p = p' := by
  obtain ⟨h₁, hm⟩ := pair_inj (Nat.mod_lt _ g.oneshot_pos) (Nat.mod_lt _ g.oneshot_pos) h
  obtain ⟨h₂, hcc⟩ := pair_inj hc hc' h₁
  obtain ⟨hd, hll⟩ := pair_inj hl hl' h₂
  refine ⟨hcc, hll, ?_⟩
  rw [← Nat.div_add_mod p spp.pgsPerOneshotpg, ← Nat.div_add_mod p' spp.pgsPerOneshotpg, hd, hm]

theorem allocIndex_mod (c l p : Nat) :
    allocIndex spp c l p % spp.pgsPerOneshotpg = p % spp.pgsPerOneshotpg := by
  unfold allocIndex
  rw [Nat.mul_add_mod_self_right, Nat.mod_mod]

theorem line_pos (g : Geometry spp) : 0 < spp.pgsPerLine := by
  rw [g.line_eq]
  exact Nat.mul_pos (Nat.mul_pos g.nchs_pos g.luns_pos) g.blk_pos

/-- On one die an earlier page is reached earlier. -/
theorem allocIndex_lt_of_pg_lt (g : Wordlines spp) {c l p p' : Nat} (hc : c < spp.nchs)
    (hl : l < spp.lunsPerCh) (h : p < p') : allocIndex spp c l p < allocIndex spp c l p' := by
  have hm := Nat.mod_lt p g.oneshot_pos
  have hle : p / spp.pgsPerOneshotpg ≤ p' / spp.pgsPerOneshotpg :=
    Nat.div_le_div_right (Nat.le_of_lt h)
  rcases Nat.lt_or_eq_of_le hle with hlt | heq
  · exact pair_lt_of_lt hm (pair_lt_of_lt hc (pair_lt_of_lt hl hlt))
  · have hp := Nat.div_add_mod p spp.pgsPerOneshotpg
    have hp' := Nat.div_add_mod p' spp.pgsPerOneshotpg
    unfold allocIndex
    rw [← heq] at hp' ⊢
    omega

/-- In one wordline a smaller LUN is reached earlier, and so is a smaller channel of one LUN. -/
theorem allocIndex_lt_of_die_lt (g : Geometry spp) {c l c' l' p p' : Nat} (hc : c < spp.nchs)
    (hw : p / spp.pgsPerOneshotpg = p' / spp.pgsPerOneshotpg) (h : l < l' ∨ (l = l' ∧ c < c')) :
    allocIndex spp c l p < allocIndex spp c' l' p' := by
  have hm := Nat.mod_lt p g.oneshot_pos
  unfold allocIndex
  rw [hw]
  rcases h with hl | ⟨rfl, hcc⟩
  · exact pair_lt_of_lt hm (pair_lt_of_lt hc (by omega))
  · exact pair_lt_of_lt hm (by omega)

theorem allocIndex_le_of_die_le {c l c' l' : Nat} (p : Nat) (hc : c ≤ c') (hl : l ≤ l') :
    allocIndex spp c l p ≤ allocIndex spp c' l' p := by
  unfold allocIndex
  gcongr

/-- An address that is smaller in some coordinate and larger in none is reached earlier. -/
theorem allocIndex_lt_of_le (g : Geometry spp) {c l p c' l' p' : Nat} (hc' : c' < spp.nchs)
    (hl' : l' < spp.lunsPerCh) (hc : c ≤ c') (hl : l ≤ l') (hp : p ≤ p')
    (hne : ¬ (c = c' ∧ l = l' ∧ p = p')) : allocIndex spp c l p < allocIndex spp c' l' p' := by
  rcases Nat.lt_or_eq_of_le hp with hlt | rfl
  · exact Nat.lt_of_le_of_lt (allocIndex_le_of_die_le p hc hl) (allocIndex_lt_of_pg_lt g.wordlines hc' hl' hlt)
  · apply allocIndex_lt_of_die_lt g (by omega) rfl
    omega

/-- Stepping to the next page inside a one-shot page. -/
theorem step_same {p P : Nat} (hP : 0 < P) (h : (p + 1) % P ≠ 0) :
    (p + 1) / P = p / P ∧ (p + 1) % P = p % P + 1 := by
  have hp := Nat.div_add_mod p P
  have hm := Nat.mod_lt p hP
  rcases Nat.lt_or_ge (p % P + 1) P with hlt | hge
  · have he : p + 1 = P * (p / P) + (p % P + 1) := by omega
    rw [he, Nat.mul_add_div hP, Nat.mul_add_mod, Nat.div_eq_of_lt hlt, Nat.mod_eq_of_lt hlt]
    exact ⟨rfl, rfl⟩
  · have he : p + 1 = P * (p / P + 1) := by rw [Nat.mul_add, Nat.mul_one]; omega
    exact absurd (by rw [he, Nat.mul_mod_right]) h

theorem step_next {p P : Nat} (hP : 0 < P) (h : (p + 1) % P = 0) :
    (p + 1) / P = p / P + 1 ∧ p % P + 1 = P ∧ (p + 1 - P) / P = p / P ∧ (p + 1 - P) % P = 0 := by
  have hp := Nat.div_add_mod p P
  have hm := Nat.mod_lt p hP
  have hlast : p % P + 1 = P := by
    by_contra hne
    have he : p + 1 = P * (p / P) + (p % P + 1) := by omega
    rw [he, Nat.mul_add_mod, Nat.mod_eq_of_lt (by omega)] at h
    omega
  have he : p + 1 = P * (p / P + 1) := by rw [Nat.mul_add, Nat.mul_one]; omega
  have hs : p + 1 - P = P * (p / P) := by rw [he, Nat.mul_add, Nat.mul_one]; omega
  refine ⟨?_, hlast, ?_, ?_⟩
  · rw [he, Nat.mul_div_cancel_left _ hP]
  · rw [hs, Nat.mul_div_cancel_left _ hP]
  · rw [hs, Nat.mul_mod_right]

theorem allocIndex_last (g : Wordlines spp) {c l p : Nat} (hc : c + 1 = spp.nchs)
    (hl : l + 1 = spp.lunsPerCh) (hp : p + 1 = spp.pgsPerBlk) :
    allocIndex spp c l p + 1 = spp.pgsPerLine := by
  have hz : (p + 1) % spp.pgsPerOneshotpg = 0 := by
    rw [hp, g.blk_oneshot, Nat.mul_mod_right]
  obtain ⟨hd, hm, _, _⟩ := step_next g.oneshot_pos hz
  have hw : p / spp.pgsPerOneshotpg + 1 = spp.oneshotpgsPerBlk := by
    rw [← hd, hp, g.blk_oneshot, Nat.mul_div_cancel_left _ g.oneshot_pos]
  calc allocIndex spp c l p + 1
      = ((p / spp.pgsPerOneshotpg * spp.lunsPerCh + l) * spp.nchs + c) * spp.pgsPerOneshotpg +
          (p % spp.pgsPerOneshotpg + 1) := rfl
    _ = ((p / spp.pgsPerOneshotpg * (l + 1) + l) * (c + 1) + c + 1) * spp.pgsPerOneshotpg := by
        rw [hm, hl, hc]; ring
    _ = (c + 1) * (l + 1) * (spp.pgsPerOneshotpg * (p / spp.pgsPerOneshotpg + 1)) := by ring
    _ = spp.pgsPerLine := by rw [hc, hl, hw, ← g.blk_oneshot, ← g.line_eq]

theorem exists_last (g : Geometry spp) : ∃ c l p, c < spp.nchs ∧ l < spp.lunsPerCh ∧
    p < spp.pgsPerBlk ∧ allocIndex spp c l p + 1 = spp.pgsPerLine := by
  have hc := g.nchs_pos
  have hl := g.luns_pos
  have hp := g.blk_pos
  exact ⟨spp.nchs - 1, spp.lunsPerCh - 1, spp.pgsPerBlk - 1, by omega, by omega, by omega,
    allocIndex_last g.wordlines (by omega) (by omega) (by omega)⟩

theorem allocIndex_eq_last (g : Geometry spp) {c l p : Nat} (hc : c < spp.nchs)
    (hl : l < spp.lunsPerCh) (h : allocIndex spp c l p + 1 = spp.pgsPerLine) :
    c + 1 = spp.nchs ∧ l + 1 = spp.lunsPerCh ∧ p + 1 = spp.pgsPerBlk := by
  have hb := g.blk_pos
  have hlast := allocIndex_last g.wordlines (c := spp.nchs - 1) (l := spp.lunsPerCh - 1)
    (p := spp.pgsPerBlk - 1) (by omega) (by omega) (by omega)
  obtain ⟨rfl, rfl, rfl⟩ := allocIndex_inj g.wordlines hc hl (by omega) (by omega)
    (Nat.add_right_cancel (h.trans hlast.symm))
  omega

end NVMeVirt
