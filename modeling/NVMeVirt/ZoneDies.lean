import NVMeVirt.Lib.Striping
import NVMeVirt.ZnsBuffer

/-!
# The dies of a zone

`__lpn_to_ppa` stripes the one-shot pages of a zone over `dies_per_zone` dies and splits the number of a
die into a channel and a LUN. The two go into fields of `struct ppa` that are 8 bits wide.
-/

namespace NVMeVirt
set_option autoImplicit false
open Outcome Striping

variable {spp : SsdParams} {zp old : ZnsParams} {cfg : ZnsConfig} {ftl : ZnsFtl} {zid off size : Nat}

/-- The channel and the LUN of a page. -/
def dieOf (spp : SsdParams) (zp : ZnsParams) (lpn : Nat) : Nat × Nat :=
  ((lpnToPpa spp zp lpn).ch, (lpnToPpa spp zp lpn).lun)

/-- Page `off` of zone `zid`. -/
def zonePage (zp : ZnsParams) (zid off : Nat) : Nat := zid * pagesPerZone zp + off

/-- The one-shot pages of a zone. The last one may be short. -/
def oneshotPages (spp : SsdParams) (zp : ZnsParams) : Nat :=
  (pagesPerZone zp + spp.pgsPerOneshotpg - 1) / spp.pgsPerOneshotpg

def zoneDies (spp : SsdParams) (zp : ZnsParams) (zid : Nat) : Finset (Nat × Nat) :=
  (Finset.range (pagesPerZone zp)).image (fun off => dieOf spp zp (zonePage zp zid off))

/-- A zoned geometry whose zones divide the dies among them. -/
structure Striped (spp : SsdParams) (zp : ZnsParams) : Prop extends Zoned spp zp where
  pages_lt : zp.nrZones * pagesPerZone zp < 2^32
  oneshot_pos : 0 < spp.pgsPerOneshotpg
  luns : spp.ttLuns = spp.lunsPerCh * spp.nchs
  luns_pos : 0 < spp.ttLuns
  luns_lt : spp.ttLuns < 2^31
  dies_lt : zp.diesPerZone < 2^32
  dvd : zp.diesPerZone ∣ spp.ttLuns

theorem Striped.dies_pos (g : Striped spp zp) : 0 < zp.diesPerZone := Nat.pos_of_dvd_of_pos g.dvd g.luns_pos

theorem Striped.nchs_pos (g : Striped spp zp) : 0 < spp.nchs :=
  Nat.pos_of_mul_pos_left (g.luns ▸ g.luns_pos)

/-- The number of the die that `__lpn_to_ppa` computes. -/
def dieNumber (spp : SsdParams) (zp : ZnsParams) (zid k : Nat) : Nat := disk spp.ttLuns zp.diesPerZone zid k

def splitDie (spp : SsdParams) (die : Nat) : Nat × Nat := (dieToChannel spp die, dieToLun spp die)

/-- What is left of a channel and a LUN in `struct ppa`. -/
def storeDie (p : Nat × Nat) : Nat × Nat := (p.1 % 2^chBits, p.2 % 2^lunBits)

theorem splitDie_injective : Function.Injective (splitDie spp) := by
  intro x y h
  obtain ⟨hch, hlun⟩ := Prod.mk.inj h
  unfold dieToChannel at hch
  unfold dieToLun at hlun
  rw [← Nat.div_add_mod x spp.nchs, ← Nat.div_add_mod y spp.nchs, hch, hlun]

theorem splitDie_lt (hluns : spp.ttLuns = spp.lunsPerCh * spp.nchs) {die : Nat} (h : die < spp.ttLuns) :
    (splitDie spp die).1 < spp.nchs ∧ (splitDie spp die).2 < spp.lunsPerCh := by
  rw [hluns] at h
  have hpos : 0 < spp.nchs := Nat.pos_of_mul_pos_left (Nat.zero_lt_of_lt h)
  exact ⟨Nat.mod_lt die hpos, Nat.div_lt_of_lt_mul (Nat.mul_comm _ _ ▸ h)⟩

theorem Striped.dieNumber_lt (g : Striped spp zp) (zid k : Nat) : dieNumber spp zp zid k < spp.ttLuns :=
  disk_lt g.dvd g.luns_pos

theorem Striped.dieOf_eq (g : Striped spp zp) (hz : zid < zp.nrZones) (hoff : off < pagesPerZone zp) :
    dieOf spp zp (zonePage zp zid off) =
      storeDie (splitDie spp (dieNumber spp zp zid (off / spp.pgsPerOneshotpg))) := by
  obtain ⟨hzone, hu⟩ := g.zone_and_offset g.pages_lt hz hoff
  have hluns := g.luns_lt
  have hstart : u64 (zid * zp.diesPerZone) = zid * zp.diesPerZone := by
    apply u64_eq
    calc zid * zp.diesPerZone < 2^32 * 2^32 := Nat.mul_lt_mul'' (Nat.lt_trans hz g.zones_lt) g.dies_lt
      _ = 2^64 := by decide
  have hsdie : u32 (zid * zp.diesPerZone % spp.ttLuns) = zid * zp.diesPerZone % spp.ttLuns := by
    have hlt := Nat.mod_lt (zid * zp.diesPerZone) g.luns_pos
    exact Nat.mod_eq_of_lt (by omega)
  have hdie : u32 (zid * zp.diesPerZone % spp.ttLuns + off / spp.pgsPerOneshotpg % zp.diesPerZone) =
      dieNumber spp zp zid (off / spp.pgsPerOneshotpg) := by
    have hlt := g.dieNumber_lt zid (off / spp.pgsPerOneshotpg)
    exact Nat.mod_eq_of_lt (show dieNumber spp zp zid (off / spp.pgsPerOneshotpg) < 2^32 by omega)
  unfold dieOf lpnToPpa zonePage
  simp only [hzone, hu, hstart, hsdie, hdie]
  rfl

theorem Striped.dieOf_lt (g : Striped spp zp) (hz : zid < zp.nrZones) (hoff : off < pagesPerZone zp) :
    (dieOf spp zp (zonePage zp zid off)).1 < spp.nchs ∧
      (dieOf spp zp (zonePage zp zid off)).2 < spp.lunsPerCh := by
  obtain ⟨hch, hlun⟩ := splitDie_lt g.luns (g.dieNumber_lt zid (off / spp.pgsPerOneshotpg))
  rw [g.dieOf_eq hz hoff]
  exact ⟨(Nat.mod_le _ _).trans_lt hch, (Nat.mod_le _ _).trans_lt hlun⟩

/-- The dies whose numbers fit their fields. -/
structure NarrowDies (spp : SsdParams) : Prop where
  nchs : spp.nchs ≤ 2^chBits
  luns : spp.lunsPerCh ≤ 2^lunBits

theorem Striped.stored (g : Striped spp zp) (w : NarrowDies spp) (k : Nat) :
    storeDie (splitDie spp (dieNumber spp zp zid k)) = splitDie spp (dieNumber spp zp zid k) := by
  obtain ⟨hch, hlun⟩ := splitDie_lt g.luns (g.dieNumber_lt zid k)
  unfold storeDie
  rw [Nat.mod_eq_of_lt (hch.trans_le w.nchs), Nat.mod_eq_of_lt (hlun.trans_le w.luns)]

theorem Striped.dieOf_narrow (g : Striped spp zp) (w : NarrowDies spp) (hz : zid < zp.nrZones)
    (hoff : off < pagesPerZone zp) :
    dieOf spp zp (zonePage zp zid off) = splitDie spp (dieNumber spp zp zid (off / spp.pgsPerOneshotpg)) := by
  rw [g.dieOf_eq hz hoff, g.stored w]

theorem Striped.zoneDies_eq (g : Striped spp zp) (w : NarrowDies spp) (hz : zid < zp.nrZones) :
    zoneDies spp zp zid =
      (disks spp.ttLuns zp.diesPerZone zid (oneshotPages spp zp)).image (splitDie spp) := by
  unfold disks oneshotPages zoneDies
  rw [← image_div_range g.oneshot_pos, Finset.image_image, Finset.image_image]
  apply Finset.image_congr
  intro off hoff
  exact g.dieOf_narrow w hz (Finset.mem_range.mp hoff)

/-- The one-shot pages of the zones go round their dies. -/
structure RoundRobin (spp : SsdParams) (zp : ZnsParams) : Prop where
  rotates : ∀ zid < zp.nrZones, ∃ die : Nat → Nat × Nat, Set.InjOn die (Set.Iio zp.diesPerZone) ∧
    ∀ off < pagesPerZone zp,
      dieOf spp zp (zonePage zp zid off) = die (off / spp.pgsPerOneshotpg % zp.diesPerZone)
  count : ∀ zid < zp.nrZones, (zoneDies spp zp zid).card = min zp.diesPerZone (oneshotPages spp zp)
  consecutive : 1 < zp.diesPerZone → ∀ zid < zp.nrZones, ∀ off < pagesPerZone zp, ∀ off' < pagesPerZone zp,
    off' / spp.pgsPerOneshotpg = off / spp.pgsPerOneshotpg + 1 →
      dieOf spp zp (zonePage zp zid off) ≠ dieOf spp zp (zonePage zp zid off')
  groups : ∀ zid < zp.nrZones, ∀ zid' < zp.nrZones,
    zoneDies spp zp zid = zoneDies spp zp zid' ∨ Disjoint (zoneDies spp zp zid) (zoneDies spp zp zid')

theorem Striped.roundRobin (g : Striped spp zp) (w : NarrowDies spp) : RoundRobin spp zp := by
  constructor
  · intro zid hz
    refine ⟨fun k => splitDie spp (dieNumber spp zp zid k), ?_, ?_⟩
    · intro k hk k' hk' heq
      have hmod := disk_inj (splitDie_injective heq)
      rwa [Nat.mod_eq_of_lt hk, Nat.mod_eq_of_lt hk'] at hmod
    · intro off hoff
      rw [g.dieOf_narrow w hz hoff]
      exact congrArg (splitDie spp) disk_mod.symm
  · intro zid hz
    rw [g.zoneDies_eq w hz, Finset.card_image_of_injective _ splitDie_injective, card_disks g.dies_pos]
  · intro hd zid hz off hoff off' hoff' hnext heq
    rw [g.dieOf_narrow w hz hoff, g.dieOf_narrow w hz hoff', hnext] at heq
    exact disk_succ_ne hd (splitDie_injective heq)
  · intro zid hz zid' hz'
    rw [g.zoneDies_eq w hz, g.zoneDies_eq w hz']
    rcases disks_eq_or_disjoint zid zid' (oneshotPages spp zp) g.dvd g.dies_pos with heq | hdis
    · exact Or.inl (congrArg _ heq)
    · exact Or.inr ((Finset.disjoint_image splitDie_injective).mpr hdis)

theorem Produced.ttLuns_pos {c : SsdConfig} {n blkSize : Nat} (p : Produced c size n blkSize spp) :
    0 < spp.ttLuns := by
  have hdies := blksAndSize_dies p.blks
  unfold SsdConfig.dies at hdies
  rw [Nat.mul_assoc] at hdies
  rw [p.ttLuns, p.luns, p.nchs]
  exact Nat.pos_of_mul_pos_left hdies

theorem znsInitParams_dies {capacity : Nat} (h : znsInitParams cfg spp old capacity = .ok zp) :
    zp.diesPerZone < 2^32 := by
  unfold znsInitParams at h
  obtain ⟨_, h⟩ := divisor_bind_ok.mp h
  obtain ⟨_, h⟩ := divisor_bind_ok.mp h
  obtain ⟨_, h⟩ := nvmevAssert_bind_ok.mp h
  obtain ⟨_, h⟩ := nvmevAssert_bind_ok.mp h
  cases h
  exact Nat.mod_lt _ (by decide)

theorem znsInitNamespace_striped (h : znsInitNamespace cfg old size = .ok (spp, ftl))
    (hdvd : ftl.zp.diesPerZone ∣ spp.ttLuns) (hpages : ftl.zp.nrZones * pagesPerZone ftl.zp < 2^32) :
    Striped spp ftl.zp := by
  unfold znsInitNamespace at h
  obtain ⟨_, hspp, h⟩ := bind_eq_ok.mp h
  obtain ⟨zp, hzp, h⟩ := bind_eq_ok.mp h
  cases h
  obtain ⟨_, p⟩ := ssdInitParams_produced hspp
  have hpaged := (ssdInitParams_checked hspp).paged
  exact {
    toZoned := (znsInitParams_zoned hpaged hzp).1
    pages_lt := hpages
    oneshot_pos := p.oneshot_pos
    luns := p.ttLuns
    luns_pos := p.ttLuns_pos
    luns_lt := p.ttLuns ▸ p.luns_lt
    dies_lt := znsInitParams_dies hzp
    dvd := hdvd }

/-- Whenever `dies_per_zone` divides the number of dies and 32 bits can number the pages of the zones, a
page is on a die of the device. With at most 2^8 channels and LUNs the one-shot pages of a zone go
round the dies of the zone. -/
theorem zones_striped (h : znsInitNamespace cfg old size = .ok (spp, ftl))
    (hdvd : ftl.zp.diesPerZone ∣ spp.ttLuns) (hpages : ftl.zp.nrZones * pagesPerZone ftl.zp < 2^32) :
    (∀ zid < ftl.zp.nrZones, ∀ off < pagesPerZone ftl.zp,
      (dieOf spp ftl.zp (zonePage ftl.zp zid off)).1 < spp.nchs ∧
        (dieOf spp ftl.zp (zonePage ftl.zp zid off)).2 < spp.lunsPerCh) ∧
      (NarrowDies spp → RoundRobin spp ftl.zp) := by
  have g := znsInitNamespace_striped h hdvd hpages
  refine ⟨?_, g.roundRobin⟩
  intro zid hz off hoff
  exact g.dieOf_lt hz hoff

theorem zones_striped_zn540 : ∃ spp ftl, znsInitNamespace wdZn540 zeroedParams (2^36) = .ok (spp, ftl) ∧
    RoundRobin spp ftl.zp := by
  have h : znsInitNamespace wdZn540 zeroedParams (2^36) = .ok (_, _) := rfl
  refine ⟨_, _, h, (zones_striped h (by decide) (by decide)).2 ?_⟩
  constructor <;> decide

/-- A `ZONE_SIZE` of 1 MiB on the dies of a ZN540. -/
def miniZones : ZnsConfig := { wdZn540 with
  zoneSize := 2^20
  blkSize := 2^20 / (8 * 4) }

/-- A device with 512 channels and one zone on all of its dies. -/
def wideDevice : ZnsConfig := { wdZn540 with
  nandChannels := 512
  blkSize := 2 * 2^30 / (512 * 4)
  diesPerZone := 512 * 4 }

/-- A zone of 1 MiB has 11 one-shot pages for its 32 dies. Of 512 channels the last 256 share their
numbers with the first ones, so that two pages of a round are on one die. -/
theorem zones_not_striped :
    (∃ spp ftl, znsInitNamespace miniZones zeroedParams (2^25) = .ok (spp, ftl) ∧
      ftl.zp.diesPerZone ∣ spp.ttLuns ∧ ftl.zp.nrZones * pagesPerZone ftl.zp < 2^32 ∧ 0 < ftl.zp.nrZones ∧
        (zoneDies spp ftl.zp 0).card ≠ ftl.zp.diesPerZone) ∧
    (∃ spp ftl, znsInitNamespace wideDevice zeroedParams (2^33) = .ok (spp, ftl) ∧
      ftl.zp.diesPerZone ∣ spp.ttLuns ∧ ftl.zp.nrZones * pagesPerZone ftl.zp < 2^32 ∧ 0 < ftl.zp.nrZones ∧
        256 * spp.pgsPerOneshotpg < pagesPerZone ftl.zp ∧ 256 < ftl.zp.diesPerZone ∧
          dieOf spp ftl.zp (zonePage ftl.zp 0 0) =
            dieOf spp ftl.zp (zonePage ftl.zp 0 (256 * spp.pgsPerOneshotpg))) := by
  constructor
  · have h : znsInitNamespace miniZones zeroedParams (2^25) = .ok (_, _) := rfl
    refine ⟨_, _, h, by decide, by decide, by decide, ?_⟩
    have g := znsInitNamespace_striped h (by decide) (by decide)
    rw [(g.roundRobin (by constructor <;> decide)).count 0 (by decide)]
    decide
  · have h : znsInitNamespace wideDevice zeroedParams (2^33) = .ok (_, _) := rfl
    exact ⟨_, _, h, by decide, by decide, by decide, by decide, by decide, by decide⟩

end NVMeVirt
