import NVMeVirt.ConvInit

/-!
# Page numbers

`ppa2pgidx` reads a page address as a number with five digits. The weights are products of the counts
in the geometry. The digits themselves are kept in the bit fields of `struct ppa`, which have the same
width whatever the geometry.
-/

namespace NVMeVirt
set_option autoImplicit false
open Outcome Digits

variable {spp : SsdParams} {a b : Ppa} {cfg : SsdConfig} {size n : Nat}

/-- A value of `struct ppa`. -/
structure Ppa.Word (a : Ppa) : Prop where
  pg : a.pg < 2^pageBits
  blk : a.blk < 2^blkBits
  pl : a.pl < 2^plBits
  lun : a.lun < 2^lunBits
  ch : a.ch < 2^chBits
  rsv : a.rsv < 2^rsbBits

/-- `ppa2pgidx` numbers the addresses that `valid_ppa` accepts: its assertion holds of each, different
pages have different numbers, and each number below `tt_pgs` is that of a page. The reserved bits are
not part of a page. -/
structure Numbered (spp : SsdParams) : Prop where
  index : ∀ a : Ppa, a.Word → validPpa spp a → ∃ i < spp.ttPgs, ppa2pgidx spp a = .ok i
  inj : ∀ a b : Ppa, a.Word → b.Word → validPpa spp a → validPpa spp b →
    ppa2pgidx spp a = ppa2pgidx spp b → a.addr = b.addr ∧ a.pg = b.pg
  onto : ∀ i < spp.ttPgs, ∃ a : Ppa, a.Word ∧ a.rsv = 0 ∧ validPpa spp a ∧ ppa2pgidx spp a = .ok i

/-- The pages of the geometry, as a number without a bound. -/
def totalPages (spp : SsdParams) : Nat :=
  spp.nchs * spp.lunsPerCh * spp.plsPerLun * spp.blksPerPl * spp.pgsPerBlk

/-- Each digit of a page of the geometry fits its bit field. -/
structure FieldsHold (spp : SsdParams) : Prop where
  nchs : spp.nchs ≤ 2^chBits
  luns : spp.lunsPerCh ≤ 2^lunBits
  pls : spp.plsPerLun ≤ 2^plBits
  blks : spp.blksPerPl ≤ 2^blkBits
  pgs : spp.pgsPerBlk ≤ 2^pageBits

theorem FieldsHold.totalPages_lt (h : FieldsHold spp) : totalPages spp < 2^64 := by
  unfold totalPages
  calc spp.nchs * spp.lunsPerCh * spp.plsPerLun * spp.blksPerPl * spp.pgsPerBlk
      ≤ 2^chBits * 2^lunBits * 2^plBits * 2^blkBits * 2^pageBits := by
        apply Nat.mul_le_mul _ h.pgs
        apply Nat.mul_le_mul _ h.blks
        apply Nat.mul_le_mul _ h.pls
        exact Nat.mul_le_mul h.nchs h.luns
    _ < 2^64 := by decide

/-- The weights of the digits as `ssd_init_params` computes them. -/
structure Weights (spp : SsdParams) : Prop where
  pl : spp.pgsPerPl = spp.pgsPerBlk * spp.blksPerPl
  lun : spp.pgsPerLun = u64 (spp.pgsPerPl * spp.plsPerLun)
  ch : spp.pgsPerCh = u64 (spp.pgsPerLun * spp.lunsPerCh)
  tt : spp.ttPgs = u64 (spp.pgsPerCh * spp.nchs)

theorem Produced.weights {blkSize : Nat} (p : Produced cfg size n blkSize spp) : Weights spp :=
  ⟨p.pl, p.lun, p.ch, p.tt⟩

theorem u64_mul (x y : Nat) : u64 (u64 x * y) = u64 (x * y) := Nat.mod_mul_mod x y _

theorem Weights.ttPgs_eq (w : Weights spp) : spp.ttPgs = u64 (totalPages spp) := by
  rw [w.tt, w.ch, u64_mul, w.lun, Nat.mul_assoc, u64_mul, w.pl]
  congr 1
  unfold totalPages
  ring

/-- As long as the pages can be counted in 64 bits no weight wraps. -/
theorem Weights.exact (w : Weights spp) (hlt : totalPages spp < 2^64) (hdies : 0 < spp.lunsPerCh * spp.nchs) :
    spp.pgsPerLun = spp.pgsPerPl * spp.plsPerLun ∧ spp.pgsPerCh = spp.pgsPerLun * spp.lunsPerCh := by
  have htotal : totalPages spp = spp.pgsPerPl * spp.plsPerLun * (spp.lunsPerCh * spp.nchs) := by
    rw [w.pl]
    unfold totalPages
    ring
  have hnchs : 0 < spp.nchs := Nat.pos_of_mul_pos_left hdies
  have hlun : spp.pgsPerLun = spp.pgsPerPl * spp.plsPerLun := by
    rw [w.lun]
    apply u64_eq
    exact Nat.lt_of_le_of_lt (Nat.le_mul_of_pos_right _ hdies) (htotal ▸ hlt)
  refine ⟨hlun, ?_⟩
  rw [w.ch]
  apply u64_eq
  calc spp.pgsPerLun * spp.lunsPerCh
      ≤ spp.pgsPerLun * spp.lunsPerCh * spp.nchs := Nat.le_mul_of_pos_right _ hnchs
    _ = totalPages spp := by rw [htotal, hlun, Nat.mul_assoc]
    _ < 2^64 := hlt

def pageNumber (spp : SsdParams) (a : Ppa) : Nat :=
  (((a.ch * spp.lunsPerCh + a.lun) * spp.plsPerLun + a.pl) * spp.blksPerPl + a.blk) * spp.pgsPerBlk + a.pg

theorem pageNumber_lt (hv : validPpa spp a) : pageNumber spp a < totalPages spp := by
  obtain ⟨hch, hlun, hpl, hblk, hpg⟩ := hv
  exact pair_lt (pair_lt (pair_lt (pair_lt hch hlun) hpl) hblk) hpg

theorem pageNumber_inj (ha : validPpa spp a) (hb : validPpa spp b)
    (h : pageNumber spp a = pageNumber spp b) : a.addr = b.addr ∧ a.pg = b.pg := by
  obtain ⟨_, halun, hapl, hablk, hapg⟩ := ha
  obtain ⟨_, hblun, hbpl, hbblk, hbpg⟩ := hb
  obtain ⟨h, hpg⟩ := pair_inj hapg hbpg h
  obtain ⟨h, hblk⟩ := pair_inj hablk hbblk h
  obtain ⟨h, hpl⟩ := pair_inj hapl hbpl h
  obtain ⟨hch, hlun⟩ := pair_inj halun hblun h
  refine ⟨?_, hpg⟩
  unfold Ppa.addr
  rw [hch, hlun, hpl, hblk]

theorem exists_pageNumber {i : Nat} (h : i < totalPages spp) :
    ∃ a : Ppa, a.rsv = 0 ∧ validPpa spp a ∧ pageNumber spp a = i := by
  unfold totalPages at h
  obtain ⟨_, pg, hblks, hpg, rfl⟩ := exists_pair h
  obtain ⟨_, blk, hpls, hblk, rfl⟩ := exists_pair hblks
  obtain ⟨_, pl, hluns, hpl, rfl⟩ := exists_pair hpls
  obtain ⟨ch, lun, hch, hlun, rfl⟩ := exists_pair hluns
  exact ⟨⟨pg, blk, pl, lun, ch, 0⟩, rfl, ⟨hch, hlun, hpl, hblk, hpg⟩, rfl⟩

def topPage (spp : SsdParams) : Ppa :=
  ⟨spp.pgsPerBlk - 1, spp.blksPerPl - 1, spp.plsPerLun - 1, spp.lunsPerCh - 1, spp.nchs - 1, 0⟩

theorem topPage_valid (h : 0 < totalPages spp) : validPpa spp (topPage spp) := by
  unfold totalPages at h
  simp only [Nat.pos_iff_ne_zero, ne_eq, mul_eq_zero, not_or] at h
  obtain ⟨⟨⟨⟨hch, hlun⟩, hpl⟩, hblk⟩, hpg⟩ := h
  exact ⟨Nat.pred_lt hch, Nat.pred_lt hlun, Nat.pred_lt hpl, Nat.pred_lt hblk, Nat.pred_lt hpg⟩

theorem Weights.ppa2pgidx_eq (w : Weights spp) (hlt : totalPages spp < 2^64) (hv : validPpa spp a) :
    ppa2pgidx spp a = .ok (pageNumber spp a) := by
  have hnum := pageNumber_lt hv
  have hch : 0 < spp.nchs := Nat.zero_lt_of_lt hv.1
  have hlun : 0 < spp.lunsPerCh := Nat.zero_lt_of_lt hv.2.1
  obtain ⟨hperLun, hperCh⟩ := w.exact hlt (Nat.mul_pos hlun hch)
  have hsum : a.ch * spp.pgsPerCh + a.lun * spp.pgsPerLun + a.pl * spp.pgsPerPl + a.blk * spp.pgsPerBlk +
      a.pg = pageNumber spp a := by
    rw [hperCh, hperLun, w.pl]
    unfold pageNumber
    ring
  have htt : spp.ttPgs = totalPages spp := by rw [w.ttPgs_eq, u64_eq hlt]
  unfold ppa2pgidx
  dsimp only
  rw [hsum, u64_eq (Nat.lt_trans hnum hlt), htt, nvmevAssert_true hnum]
  rfl

theorem FieldsHold.word (h : FieldsHold spp) (hv : validPpa spp a) (hrsv : a.rsv = 0) : a.Word := by
  obtain ⟨hch, hlun, hpl, hblk, hpg⟩ := hv
  refine ⟨hpg.trans_le h.pgs, hblk.trans_le h.blks, hpl.trans_le h.pls, hlun.trans_le h.luns,
    hch.trans_le h.nchs, ?_⟩
  rw [hrsv]
  decide

theorem FieldsHold.numbered (h : FieldsHold spp) (w : Weights spp) : Numbered spp := by
  have hlt := h.totalPages_lt
  have htt : spp.ttPgs = totalPages spp := by rw [w.ttPgs_eq, u64_eq hlt]
  constructor
  · intro a _ hv
    exact ⟨pageNumber spp a, htt ▸ pageNumber_lt hv, w.ppa2pgidx_eq hlt hv⟩
  · intro a b _ _ ha hb heq
    rw [w.ppa2pgidx_eq hlt ha, w.ppa2pgidx_eq hlt hb] at heq
    exact pageNumber_inj ha hb (Except.ok.inj heq)
  · intro i hi
    obtain ⟨a, hrsv, hv, rfl⟩ := exists_pageNumber (htt ▸ hi)
    exact ⟨a, h.word hv hrsv, hrsv, hv, w.ppa2pgidx_eq hlt hv⟩

theorem numbered_of_empty (w : Weights spp) (h : totalPages spp = 0) : Numbered spp := by
  have hnone : ∀ a : Ppa, ¬ validPpa spp a := by
    intro a hv
    have hlt := pageNumber_lt hv
    omega
  have htt : spp.ttPgs = 0 := by
    rw [w.ttPgs_eq, h]
    rfl
  constructor
  · intro a _ hv
    exact absurd hv (hnone a)
  · intro a _ _ _ hv
    exact absurd hv (hnone a)
  · intro i hi
    omega

theorem Numbered.fieldsHold (h : Numbered spp) (w : Weights spp) (hlt : totalPages spp < 2^64)
    (hpos : 0 < totalPages spp) : FieldsHold spp := by
  have htt : spp.ttPgs = totalPages spp := by rw [w.ttPgs_eq, u64_eq hlt]
  have hlast := topPage_valid hpos
  have hidx := w.ppa2pgidx_eq hlt hlast
  obtain ⟨a, hword, _, hv, ha⟩ := h.onto (pageNumber spp (topPage spp)) (htt ▸ pageNumber_lt hlast)
  rw [w.ppa2pgidx_eq hlt hv] at ha
  obtain ⟨haddr, hpg⟩ := pageNumber_inj hv hlast (Except.ok.inj ha)
  obtain ⟨hch, hlun, hpl, hblk⟩ := BlkAddr.mk.inj haddr
  constructor
  · exact Nat.le_of_pred_lt (hch.symm.trans_lt hword.ch)
  · exact Nat.le_of_pred_lt (hlun.symm.trans_lt hword.lun)
  · exact Nat.le_of_pred_lt (hpl.symm.trans_lt hword.pl)
  · exact Nat.le_of_pred_lt (hblk.symm.trans_lt hword.blk)
  · exact Nat.le_of_pred_lt (hpg.symm.trans_lt hword.pg)

/-- With a configured number of blocks the pages can be counted: `pgs_per_blk` and the blocks of a
partition are both `int`. -/
theorem Produced.totalPages_lt {blkSize : Nat} (p : Produced cfg size n blkSize spp)
    (hb : 0 < cfg.blksPerPln) : totalPages spp < 2^64 := by
  have hblks := p.blks
  unfold blksAndSize at hblks
  rw [if_pos hb] at hblks
  obtain ⟨hdies, hblks⟩ := asInt_bind_ok.mp hblks
  obtain ⟨_, hblks⟩ := divisor_bind_ok.mp hblks
  obtain ⟨hper, _⟩ := Prod.mk.inj (Except.ok.inj hblks)
  have hcount : totalPages spp = cfg.blksPerPln * cfg.dies n * spp.pgsPerBlk := by
    unfold totalPages SsdConfig.dies
    rw [p.nchs, p.luns, p.pls, ← hper]
    ring
  calc totalPages spp = cfg.blksPerPln * cfg.dies n * spp.pgsPerBlk := hcount
    _ ≤ 2^31 * 2^31 := Nat.mul_le_mul hdies.le p.blk_lt.le
    _ < 2^64 := by decide

/-- `ppa2pgidx` numbers the pages of a geometry exactly if each of the five counts fits its bit field or
there is no page at all. Where `tt_pgs` itself wraps, which takes a build without `BLKS_PER_PLN`, the
condition is enough. -/
theorem pages_numbered_iff (h : ssdInitParams cfg size n = .ok spp) :
    (0 < cfg.blksPerPln ∨ totalPages spp < 2^64 → (Numbered spp ↔ FieldsHold spp ∨ totalPages spp = 0)) ∧
      (FieldsHold spp ∨ totalPages spp = 0 → Numbered spp) := by
  obtain ⟨blkSize, p⟩ := ssdInitParams_produced h
  have hback : FieldsHold spp ∨ totalPages spp = 0 → Numbered spp := by
    intro hfit
    rcases hfit with hfit | hnone
    · exact hfit.numbered p.weights
    · exact numbered_of_empty p.weights hnone
  refine ⟨?_, hback⟩
  intro hcounted
  have hlt : totalPages spp < 2^64 := by
    rcases hcounted with hb | hlt
    · exact p.totalPages_lt hb
    · exact hlt
  refine ⟨?_, hback⟩
  intro hnum
  rcases Nat.eq_zero_or_pos (totalPages spp) with hnone | hpos
  · exact Or.inr hnone
  · exact Or.inl (hnum.fieldsHold p.weights hlt hpos)

theorem pages_numbered_64GiB : ∃ spp, ssdInitParams samsung970Pro (2^36) 1 = .ok spp ∧ Numbered spp := by
  have h : ssdInitParams samsung970Pro (2^36) 1 = .ok _ := rfl
  refine ⟨_, h, (pages_numbered_iff h).2 (Or.inl ?_)⟩
  constructor <;> decide

/-- A block of the drive of 256 TiB has 2^17 pages. -/
theorem pages_not_numbered_256TiB :
    ∃ spp, ssdInitParams samsung970Pro (2^48) 1 = .ok spp ∧ ¬ Numbered spp := by
  have h : ssdInitParams samsung970Pro (2^48) 1 = .ok _ := rfl
  obtain ⟨_, p⟩ := ssdInitParams_produced h
  refine ⟨_, h, ?_⟩
  intro hnum
  have hfit := hnum.fieldsHold p.weights (by decide) (by decide)
  exact absurd hfit.pgs (by decide)

end NVMeVirt
