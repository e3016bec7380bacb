import NVMeVirt.ZnsReadWrite
import NVMeVirt.Lib.Census

/-!
# Zones and their resources

The geometry that `zns_init_namespace` checks, and the ledger of the three resources. `holds`
says which resources a zone should have taken. An action moves one descriptor, and the
counters move with it: `Moved`. `leak` is what the random write area counter keeps too much.
-/

namespace NVMeVirt
set_option autoImplicit false
open Outcome

def lbasPerZone (zp : ZnsParams) : Nat := zp.zoneSize / lbaSize

/-- Zones are whole pages, and their indices fit 32 bits. -/
structure Zoned (spp : SsdParams) (zp : ZnsParams) : Prop where
  secsz : spp.secsz = lbaSize
  secsPerPg : spp.secsPerPg = 8
  pgsz : spp.pgsz = 4096
  pages : zp.zoneSize % 4096 = 0
  pos : 0 < zp.zoneSize
  zones_lt : zp.nrZones < 2^32

/-- The 32-bit zone arithmetic covers the namespace. -/
structure Addressable (spp : SsdParams) (zp : ZnsParams) : Prop extends Zoned spp zp where
  small : zp.nrZones * lbasPerZone zp < 2^32

namespace Zoned

variable {spp : SsdParams} {zp : ZnsParams}

theorem lbas_eq (g : Zoned spp zp) : lbasPerZone zp = 8 * (zp.zoneSize / 4096) := by
  have := g.pages
  unfold lbasPerZone lbaSize lbaBits
  omega

theorem lbas_pos (g : Zoned spp zp) : 0 < lbasPerZone zp := by
  have := g.pages
  have := g.pos
  unfold lbasPerZone lbaSize lbaBits
  omega

theorem lbaToZone_eq (g : Zoned spp zp) {lba : Nat} (h : lba < 2^35) :
    lbaToZone spp zp lba = lba / lbasPerZone zp := by
  have h₁ := g.lbas_eq
  have h₂ := g.lbas_pos
  have h₃ : lba / lbasPerZone zp ≤ lba / 8 := Nat.div_le_div_left (by omega) (by decide)
  unfold lbaToZone
  rw [g.secsz]
  exact Nat.mod_eq_of_lt (show lba / lbasPerZone zp < 2^32 by omega)

/-- The zone that `zns_write` looks up by page is the one it looks up by LBA. -/
theorem lpnToZone_eq (g : Zoned spp zp) (lba : Nat) :
    lpnToZone spp zp (lbaToLpn spp lba) = lbaToZone spp zp lba := by
  unfold lpnToZone lbaToLpn lbaToZone
  rw [g.secsz, g.secsPerPg, g.pgsz, Nat.div_div_eq_div_mul]
  have h := g.lbas_eq
  unfold lbasPerZone at h
  rw [h]

theorem in_zone (g : Zoned spp zp) {lba zid : Nat} (h : lba / lbasPerZone zp = zid) :
    zid * lbasPerZone zp ≤ lba ∧ lba < zid * lbasPerZone zp + lbasPerZone zp := by
  have h₁ := Nat.div_mul_le_self lba (lbasPerZone zp)
  have h₂ := Nat.lt_div_mul_add g.lbas_pos (a := lba)
  rw [h] at h₁ h₂
  exact ⟨h₁, h₂⟩

theorem zone_of {lba zid : Nat} (h₁ : zid * lbasPerZone zp ≤ lba)
    (h₂ : lba < zid * lbasPerZone zp + lbasPerZone zp) : lba / lbasPerZone zp = zid := by
  apply Nat.div_eq_of_lt_le h₁
  rw [Nat.succ_mul]
  exact h₂

end Zoned

namespace Addressable

variable {spp : SsdParams} {zp : ZnsParams}

theorem zone_end_le (g : Addressable spp zp) {zid : Nat} (h : zid < zp.nrZones) :
    zid * lbasPerZone zp + lbasPerZone zp < 2^32 := by
  have h₁ : (zid + 1) * lbasPerZone zp ≤ zp.nrZones * lbasPerZone zp := Nat.mul_le_mul_right _ h
  have := g.small
  rw [Nat.succ_mul] at h₁
  omega

theorem zoneToSlba_eq (g : Addressable spp zp) {zid : Nat} (h : zid ≤ zp.nrZones) :
    zoneToSlba spp zp zid = zid * lbasPerZone zp := by
  unfold zoneToSlba
  rw [g.secsz]
  apply Nat.mod_eq_of_lt
  calc zid * (zp.zoneSize / lbaSize) ≤ zp.nrZones * lbasPerZone zp := Nat.mul_le_mul_right _ h
    _ < 2^32 := g.small

theorem lbaToZone_zoneToSlba (g : Addressable spp zp) {zid : Nat} (h : zid < zp.nrZones) :
    lbaToZone spp zp (zoneToSlba spp zp zid) = zid := by
  have hend := g.zone_end_le h
  rw [g.zoneToSlba_eq (Nat.le_of_lt h), g.lbaToZone_eq (by omega), Nat.mul_div_cancel _ g.lbas_pos]

end Addressable

def holds (type : ResType) (d : ZoneDescriptor) : Bool :=
  match type, d.state with
  | .openZone, .openedImpl | .openZone, .openedExpl => true
  | .activeZone, .openedImpl | .activeZone, .openedExpl | .activeZone, .closed => true
  | .zrwaZone, .openedImpl | .zrwaZone, .openedExpl | .zrwaZone, .closed => d.zrwav
  | _, _ => false

def leakOf (type : ResType) (leak : Nat) : Nat := if type = .zrwaZone then leak else 0

/-- One descriptor was replaced by `d` and the counters followed. -/
structure Moved (ftl ftl' : ZnsFtl) (zid : Nat) (d : ZoneDescriptor) (leak : Nat) : Prop where
  zp : ftl'.zp = ftl.zp
  descs : ftl'.zoneDescs = Function.update ftl.zoneDescs zid d
  total : ∀ t, (ftl'.resInfos t).totalCnt = (ftl.resInfos t).totalCnt
  bound : ∀ t, (ftl'.resInfos t).acquiredCnt ≤ (ftl'.resInfos t).totalCnt
  count : ∀ t, (ftl'.resInfos t).acquiredCnt + (holds t (ftl.zoneDescs zid)).toNat =
    (ftl.resInfos t).acquiredCnt + (holds t d).toNat + leakOf t leak

structure Ledger (ftl : ZnsFtl) (leak : Nat) : Prop where
  total : ∀ t, (ftl.resInfos t).totalCnt = ftl.zp.nrZones
  bound : ∀ t, (ftl.resInfos t).acquiredCnt ≤ ftl.zp.nrZones
  count : ∀ t, (ftl.resInfos t).acquiredCnt =
    Census.tally ftl.zp.nrZones (fun z => holds t (ftl.zoneDescs z)) + leakOf t leak

theorem leakOf_add (t : ResType) (a b : Nat) : leakOf t (a + b) = leakOf t a + leakOf t b := by
  unfold leakOf
  split
  · rfl
  · rfl

theorem Ledger.moved {ftl ftl' : ZnsFtl} {zid : Nat} {d : ZoneDescriptor} {leak more : Nat}
    (k : Ledger ftl leak) (hz : zid < ftl.zp.nrZones) (m : Moved ftl ftl' zid d more) :
    Ledger ftl' (leak + more) where
  total := fun t => by rw [m.total, m.zp, k.total]
  bound := fun t => by
    have := m.bound t
    rwa [m.total, k.total, ← m.zp] at this
  count := fun t => by
    have hs := Census.sum_swap (n := ftl.zp.nrZones) (k := zid)
      (f := fun z => if holds t (ftl'.zoneDescs z) then 1 else 0)
      (g := fun z => if holds t (ftl.zoneDescs z) then 1 else 0) hz (by
        intro i _ hne
        simp only [m.descs, Function.update_of_ne hne])
    rw [← Census.tally_eq_sum, ← Census.tally_eq_sum] at hs
    have hc := m.count t
    have hk := k.count t
    have hd : ftl'.zoneDescs zid = d := by rw [m.descs, Function.update_self]
    rw [m.zp, leakOf_add]
    simp only [hd, Bool.toNat, Bool.cond_eq_ite] at hs hc
    omega

theorem Ledger.held {ftl : ZnsFtl} {leak zid : Nat} {t : ResType} (k : Ledger ftl leak)
    (hz : zid < ftl.zp.nrZones) (h : holds t (ftl.zoneDescs zid) = true) :
    0 < (ftl.resInfos t).acquiredCnt := by
  have hp := Census.tally_pos (p := fun z => holds t (ftl.zoneDescs z)) hz h
  have := k.count t
  omega

def ZoneDescriptor.zoneEnd (d : ZoneDescriptor) : Nat := d.zslba + d.zoneCapacity

def Opened (d : ZoneDescriptor) : Prop := d.state = .openedImpl ∨ d.state = .openedExpl

def Active (d : ZoneDescriptor) : Prop := Opened d ∨ d.state = .closed

/-- What one management action does to a descriptor; `g` says that it may grant a random write
area. -/
inductive ZoneAction (g : Prop) (d : ZoneDescriptor) : ZoneDescriptor → Prop
  | stay : ZoneAction g d d
  | finish : ZoneAction g d { d with state := .full }
  | activate {s : ZoneState} (source : d.state = .empty ∨ Active d)
      (target : Active { d with state := s }) : ZoneAction g d { d with state := s }
  | grant (asked : g) (source : d.state = .empty) :
      ZoneAction g d { d with state := .openedExpl, zrwav := true }
  | clear : ZoneAction g d { d with state := .empty, wp := d.zslba, zrwav := false }
  | flush {w : Nat} {s : ZoneState} (zrwa : d.zrwav = true)
      (target : s = .full ∨ Active { d with state := s }) : ZoneAction g d { d with wp := w, state := s }

/-- A write moves the write pointer of an open zone as well. -/
inductive ZoneStep (d : ZoneDescriptor) : ZoneDescriptor → Prop
  | action {g : Prop} {d' : ZoneDescriptor} (h : ZoneAction g d d') : ZoneStep d d'
  | advance {w : Nat} (source : Opened d) : ZoneStep d { d with wp := w }
  | fill {w : Nat} (source : Opened d) : ZoneStep d { d with wp := w, state := .full }

theorem ZoneAction.zslba {g : Prop} {d d' : ZoneDescriptor} (h : ZoneAction g d d') : d'.zslba = d.zslba := by
  cases h <;> rfl

theorem ZoneAction.zoneCapacity {g : Prop} {d d' : ZoneDescriptor} (h : ZoneAction g d d') :
    d'.zoneCapacity = d.zoneCapacity := by
  cases h <;> rfl

theorem ZoneAction.zrwav {g : Prop} {d d' : ZoneDescriptor} (h : ZoneAction g d d') (hg : ¬ g)
    (hd : d.zrwav = false) : d'.zrwav = false := by
  cases h with
  | stay => exact hd
  | finish => exact hd
  | activate => exact hd
  | grant asked => exact absurd asked hg
  | clear => rfl
  | flush => exact hd

theorem not_active_empty {d : ZoneDescriptor} (h : d.state = .empty) : ¬ Active d := by
  simp [Active, Opened, h]

theorem not_active_full {d : ZoneDescriptor} (h : d.state = .full) : ¬ Active d := by
  simp [Active, Opened, h]

theorem Active.usable {d : ZoneDescriptor} (h : Active d) : d.state ≠ .readOnly ∧ d.state ≠ .offline := by
  rcases h with (h | h) | h <;> simp [h]

theorem Active.not_empty {d : ZoneDescriptor} (h : Active d) : d.state ≠ .empty :=
  fun he => not_active_empty he h

/-- No command puts a zone out of use, and only an open one gets a random write area. -/
structure ZoneOk (d : ZoneDescriptor) : Prop where
  plain : d.state = .empty → d.zrwav = false
  usable : d.state ≠ .readOnly ∧ d.state ≠ .offline

theorem ZoneOk.of_full {d : ZoneDescriptor} (h : d.state = .full) : ZoneOk d :=
  ⟨by simp [h], by simp [h]⟩

theorem ZoneOk.of_active {d : ZoneDescriptor} (h : Active d) : ZoneOk d :=
  ⟨fun he => absurd he h.not_empty, h.usable⟩

theorem ZoneOk.step {d d' : ZoneDescriptor} (k : ZoneOk d) (h : ZoneStep d d') : ZoneOk d' := by
  cases h with
  | action h =>
    cases h with
    | stay => exact k
    | finish => exact .of_full rfl
    | activate source target => exact .of_active target
    | grant asked source => exact .of_active (.inl (.inr rfl))
    | clear => exact ⟨fun _ => rfl, by simp⟩
    | flush zrwa target =>
      rcases target with rfl | ha
      · exact .of_full rfl
      · exact .of_active ha
  | advance source => exact .of_active (.inl source)
  | fill source => exact .of_full rfl

/-- The write pointer against the state. A zone with a random write area may run over its end. -/
structure PointerOk (d : ZoneDescriptor) : Prop where
  start : d.zrwav = false → d.state = .empty → d.wp = d.zslba
  lower : d.zrwav = false → d.zslba ≤ d.wp
  upper : d.zrwav = false → d.wp ≤ d.zoneEnd
  below : d.zrwav = false → Active d → d.wp < d.zoneEnd

theorem PointerOk.of_zrwa {d : ZoneDescriptor} (h : d.zrwav = true) : PointerOk d :=
  ⟨by simp [h], by simp [h], by simp [h], by simp [h]⟩

theorem PointerOk.action {g : Prop} {d d' : ZoneDescriptor} (k : PointerOk d)
    (hpos : 0 < d.zoneCapacity) (h : ZoneAction g d d') : PointerOk d' := by
  cases h with
  | stay => exact k
  | finish =>
    exact ⟨fun _ h => absurd h (by simp), k.lower, k.upper, fun _ h => absurd h (not_active_full rfl)⟩
  | activate source target =>
    refine ⟨fun _ h => absurd h target.not_empty, k.lower, k.upper, fun hz _ => ?_⟩
    rcases source with he | ha
    · have hw := k.start hz he
      change d.wp < d.zslba + d.zoneCapacity
      omega
    · exact k.below hz ha
  | grant asked source => exact .of_zrwa rfl
  | clear =>
    exact ⟨fun _ _ => rfl, fun _ => Nat.le_refl _, fun _ => Nat.le_add_right _ _,
      fun _ h => absurd h (not_active_empty rfl)⟩
  | flush zrwa target => exact .of_zrwa zrwa

/-- What every run keeps, in a namespace of any size. -/
structure ZnsOk (spp : SsdParams) (ftl : ZnsFtl) (leak : Nat) : Prop where
  zoned : Zoned spp ftl.zp
  zones : ∀ z < ftl.zp.nrZones, ZoneOk (ftl.zoneDescs z)
  ledger : Ledger ftl leak

theorem ZnsOk.moved {spp : SsdParams} {ftl ftl' : ZnsFtl} {zid leak more : Nat} {d : ZoneDescriptor}
    (k : ZnsOk spp ftl leak) (hz : zid < ftl.zp.nrZones) (m : Moved ftl ftl' zid d more)
    (hd : ZoneStep (ftl.zoneDescs zid) d) : ZnsOk spp ftl' (leak + more) := by
  refine ⟨m.zp ▸ k.zoned, ?_, k.ledger.moved hz m⟩
  rw [m.zp, m.descs]
  intro z hlt
  by_cases h : z = zid
  · subst h
    rw [Function.update_self]
    exact (k.zones z hz).step hd
  · rw [Function.update_of_ne h]
    exact k.zones z hlt

/-- The invariant reads neither the buffers nor the timing. -/
theorem ZnsOk.congr {spp : SsdParams} {ftl ftl' : ZnsFtl} {leak : Nat} (k : ZnsOk spp ftl leak)
    (hp : ftl'.zp = ftl.zp) (hr : ftl'.resInfos = ftl.resInfos)
    (hd : ftl'.zoneDescs = ftl.zoneDescs) : ZnsOk spp ftl' leak := by
  refine ⟨hp ▸ k.zoned, ?_, ⟨?_, ?_, ?_⟩⟩
  · rw [hp, hd]
    exact k.zones
  · rw [hp, hr]
    exact k.ledger.total
  · rw [hp, hr]
    exact k.ledger.bound
  · rw [hp, hr, hd]
    exact k.ledger.count

/-- Addresses and write pointers, in a namespace that 32-bit LBAs cover. -/
structure PointersOk (spp : SsdParams) (ftl : ZnsFtl) : Prop where
  addressable : Addressable spp ftl.zp
  zslba : ∀ z < ftl.zp.nrZones, (ftl.zoneDescs z).zslba = z * lbasPerZone ftl.zp
  capacity : ∀ z < ftl.zp.nrZones, (ftl.zoneDescs z).zoneCapacity = lbasPerZone ftl.zp
  pointers : ∀ z < ftl.zp.nrZones, PointerOk (ftl.zoneDescs z)

namespace PointersOk

variable {spp : SsdParams} {ftl ftl' : ZnsFtl} {zid : Nat} {d : ZoneDescriptor}

theorem capacity_pos (p : PointersOk spp ftl) (hz : zid < ftl.zp.nrZones) :
    0 < (ftl.zoneDescs zid).zoneCapacity := by
  rw [p.capacity zid hz]
  exact p.addressable.lbas_pos

theorem zoneEnd_eq (p : PointersOk spp ftl) (hz : zid < ftl.zp.nrZones) :
    (ftl.zoneDescs zid).zoneEnd = zid * lbasPerZone ftl.zp + lbasPerZone ftl.zp := by
  rw [ZoneDescriptor.zoneEnd, p.zslba zid hz, p.capacity zid hz]

theorem set (p : PointersOk spp ftl) (hz : zid < ftl.zp.nrZones) (hp : ftl'.zp = ftl.zp)
    (hd : ftl'.zoneDescs = Function.update ftl.zoneDescs zid d)
    (hs : d.zslba = (ftl.zoneDescs zid).zslba)
    (hc : d.zoneCapacity = (ftl.zoneDescs zid).zoneCapacity) (h : PointerOk d) : PointersOk spp ftl' := by
  refine ⟨hp ▸ p.addressable, ?_, ?_, ?_⟩
  all_goals
    rw [hp, hd]
    intro z hlt
    by_cases hne : z = zid
    · subst hne
      rw [Function.update_self]
      first
        | rw [hs, p.zslba z hz]
        | rw [hc, p.capacity z hz]
        | exact h
    · rw [Function.update_of_ne hne]
      first
        | exact p.zslba z hlt
        | exact p.capacity z hlt
        | exact p.pointers z hlt

theorem action (p : PointersOk spp ftl) (hz : zid < ftl.zp.nrZones) {leak : Nat} {g : Prop}
    (m : Moved ftl ftl' zid d leak) (h : ZoneAction g (ftl.zoneDescs zid) d) : PointersOk spp ftl' :=
  p.set hz m.zp m.descs h.zslba h.zoneCapacity ((p.pointers zid hz).action (p.capacity_pos hz) h)

theorem congr (p : PointersOk spp ftl) (hp : ftl'.zp = ftl.zp)
    (hd : ftl'.zoneDescs = ftl.zoneDescs) : PointersOk spp ftl' := by
  refine ⟨hp ▸ p.addressable, ?_, ?_, ?_⟩
  · rw [hp, hd]
    exact p.zslba
  · rw [hp, hd]
    exact p.capacity
  · rw [hp, hd]
    exact p.pointers

end PointersOk

end NVMeVirt
