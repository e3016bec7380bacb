import NVMeVirt.ZnsWrites

/-!
# What a write to a random write area does

`__zns_write_zrwa` case by case. The write pointer moves by what is flushed. When that takes
it to the end of the zone, the zone becomes full and keeps its count of the random write areas.
-/

namespace NVMeVirt
set_option autoImplicit false
open Outcome

variable {clk : Nat → Nat} {spp : SsdParams} {ftl ftl' : ZnsFtl} {zid leak : Nat}

/-- The zone is open after it, or nothing changed. The plain write buffers stay. -/
structure ZrwaAdmitted (ftl : ZnsFtl) (zid : Nat) (r : ZnsFtl × Nat) : Prop where
  failed : r.2 ≠ nvmeScSuccess → r.1 = ftl
  source : r.2 = nvmeScSuccess → Active (ftl.zoneDescs zid)
  moved : r.2 = nvmeScSuccess → ∃ s, (s = .openedImpl ∨ s = .openedExpl) ∧
    Moved ftl r.1 zid { ftl.zoneDescs zid with state := s } 0
  writeBuffer : r.1.writeBuffer = ftl.writeBuffer
  zoneWriteBuffer : r.1.zoneWriteBuffer = ftl.zoneWriteBuffer

theorem ZrwaAdmitted.refuse {status : Nat} (h : status ≠ nvmeScSuccess) :
    ZrwaAdmitted ftl zid (ftl, status) :=
  ⟨fun _ => rfl, fun h' => absurd h' h, fun h' => absurd h' h, rfl, rfl⟩

theorem ZrwaAdmitted.ready (k : ZnsOk spp ftl leak) (h : Opened (ftl.zoneDescs zid)) :
    ZrwaAdmitted ftl zid (ftl, nvmeScSuccess) :=
  ⟨fun _ => rfl, fun _ => .inl h, fun _ => ⟨_, h, .stay k⟩, rfl, rfl⟩

theorem openForZrwaWrite_closed (k : ZnsOk spp ftl leak) (hz : zid < ftl.zp.nrZones)
    (hs : (ftl.zoneDescs zid).state = .closed) {r : ZnsFtl × Nat}
    (h : openForZrwaWrite ftl zid = .ok r) : ZrwaAdmitted ftl zid r := by
  obtain ⟨ho, hac, hzr⟩ := closed_holds hs
  unfold openForZrwaWrite at h
  rw [hs] at h
  simp only at h
  by_cases hav : (ftl.resInfos .openZone).acquiredCnt < (ftl.resInfos .openZone).totalCnt
  · rw [ZnsFtl.acquireZoneResource_avail hav] at h
    simp only at h
    split at h
    · cases h
    obtain ⟨_, h⟩ := nvmevAssert_bind_ok.mp h
    cases h
    refine ⟨fun hne => absurd rfl hne, fun _ => .inr hs, fun _ => ⟨.openedImpl, .inl rfl, ?_⟩, rfl, rfl⟩
    refine Moved.of_counts k hz rfl rfl ?_ ?_
    · intro t
      cases t <;> simp [ho, hac, hzr, holds_openedImpl]
    · rw [k.ledger.total] at hav
      intro t
      cases t <;> simp +contextual [hav, hac, hzr, holds_openedImpl]
  · rw [ZnsFtl.acquireZoneResource_full hav] at h
    cases h
    exact .refuse (by decide)

theorem openForZrwaWrite_admitted (k : ZnsOk spp ftl leak) (hz : zid < ftl.zp.nrZones)
    (hv : (ftl.zoneDescs zid).zrwav = true) {r : ZnsFtl × Nat}
    (h : openForZrwaWrite ftl zid = .ok r) : ZrwaAdmitted ftl zid r := by
  cases hs : (ftl.zoneDescs zid).state with
  | closed => exact openForZrwaWrite_closed k hz hs h
  | empty =>
    have := (k.zones zid hz).plain hs
    rw [hv] at this
    cases this
  | openedImpl =>
    unfold openForZrwaWrite at h
    rw [hs] at h
    cases h
    exact .ready k (.inl hs)
  | openedExpl =>
    unfold openForZrwaWrite at h
    rw [hs] at h
    cases h
    exact .ready k (.inr hs)
  | full =>
    unfold openForZrwaWrite at h
    rw [hs] at h
    cases h
    exact .refuse (by decide)
  | readOnly => exact absurd hs (k.zones zid hz).usable.1
  | offline => exact absurd hs (k.zones zid hz).usable.2

theorem admitZrwaWrite_admitted (k : ZnsOk spp ftl leak) (hz : zid < ftl.zp.nrZones)
    (hv : (ftl.zoneDescs zid).zrwav = true) {slba n : Nat} {r : ZnsFtl × Nat}
    (h : admitZrwaWrite spp ftl zid slba n = .ok r) : ZrwaAdmitted ftl zid r := by
  unfold admitZrwaWrite at h
  simp only at h
  split at h
  · cases h
    exact .refuse (by decide)
  split at h
  · cases h
    exact .refuse (by decide)
  split at h
  · cases h
    exact .refuse (by decide)
  exact openForZrwaWrite_admitted k hz hv h

def lastLba (cmd : ZnsCommand) : Nat := u64 (cmd.slba + nrLbasFromRwCmd cmd + (2^64 - 1))

inductive ZrwaWrite (spp : SsdParams) (ftl : ZnsFtl) (req : ZnsRequest) (ret : NvmevResult) :
    ZnsOutcome → Prop
  | rejected {m : ZnsFtl} {status : Nat}
      (checks : admitZrwaWrite spp ftl (zoneOf spp ftl req.cmd) req.cmd.slba
        (nrLbasFromRwCmd req.cmd) = .ok (m, status)) (failed : status ≠ nvmeScSuccess) :
      ZrwaWrite spp ftl req ret ⟨true, m, req.cmd, ⟨status, req.nsecsStart⟩, []⟩
  | refused {m : ZnsFtl} {flush : Nat}
      (checks : admitZrwaWrite spp ftl (zoneOf spp ftl req.cmd) req.cmd.slba
        (nrLbasFromRwCmd req.cmd) = .ok (m, nvmeScSuccess))
      (amount : nrLbasFlush spp m (zoneOf spp ftl req.cmd) (lastLba req.cmd) = .ok flush)
      (short : flushZrwa spp m (zoneOf spp ftl req.cmd) flush = .ok none) :
      ZrwaWrite spp ftl req ret
        ⟨false, refusedZrwa m (zoneOf spp ftl req.cmd) flush, req.cmd, ret, []⟩
  | written {m m' : ZnsFtl} {flush target : Nat} {ssd : Ssd} {calls : List ZnsRelease}
      (checks : admitZrwaWrite spp ftl (zoneOf spp ftl req.cmd) req.cmd.slba
        (nrLbasFromRwCmd req.cmd) = .ok (m, nvmeScSuccess))
      (amount : nrLbasFlush spp m (zoneOf spp ftl req.cmd) (lastLba req.cmd) = .ok flush)
      (flushed : flushZrwa spp m (zoneOf spp ftl req.cmd) flush = .ok (some m')) :
      ZrwaWrite spp ftl req ret
        ⟨true, { m' with ssd := ssd }, req.cmd, ⟨nvmeScSuccess, target⟩, calls⟩

theorem znsWriteZrwa_cases {req : ZnsRequest} {ret : NvmevResult} {out : ZnsOutcome}
    (h : znsWriteZrwa clk spp ftl req ret = .ok out) :
    zoneOf spp ftl req.cmd < ftl.zp.nrZones ∧ ZrwaWrite spp ftl req ret out := by
  unfold znsWriteZrwa at h
  simp only [pure_eq_ok] at h
  split at h
  · cases h
  rename_i hz
  refine ⟨Nat.lt_of_not_le hz, ?_⟩
  obtain ⟨⟨m, status⟩, hadm, h⟩ := bind_eq_ok.mp h
  simp only at h
  split at h
  · rename_i hf
    cases h
    exact .rejected hadm hf
  rename_i hf
  have hst : status = nvmeScSuccess := Decidable.of_not_not hf
  subst hst
  obtain ⟨flush, hflush, h⟩ := bind_eq_ok.mp h
  obtain ⟨res, hres, h⟩ := bind_eq_ok.mp h
  cases res with
  | none =>
    cases h
    exact .refused hadm hflush hres
  | some m' =>
    obtain ⟨⟨ssd, t⟩, _, h⟩ := bind_eq_ok.mp h
    obtain ⟨p, hp, h⟩ := bind_eq_ok.mp h
    cases h
    exact .written hadm hflush hres

/-- The write to a random write area passes its checks and its flush takes the write pointer to
the end of the zone. -/
def FillsZrwa (spp : SsdParams) (ftl : ZnsFtl) (cmd : ZnsCommand) : Prop :=
  ∃ m flush m', admitZrwaWrite spp ftl (zoneOf spp ftl cmd) cmd.slba (nrLbasFromRwCmd cmd) =
      .ok (m, nvmeScSuccess) ∧
    nrLbasFlush spp m (zoneOf spp ftl cmd) (lastLba cmd) = .ok flush ∧
    flushZrwa spp m (zoneOf spp ftl cmd) flush = .ok (some m') ∧ flush ≠ 0 ∧
    u64 ((ftl.zoneDescs (zoneOf spp ftl cmd)).wp + u32 flush) = fullAt spp ftl (zoneOf spp ftl cmd)

theorem flushZrwa_some {m m' : ZnsFtl} {flush : Nat} (h : flushZrwa spp m zid flush = .ok (some m')) :
    (flush = 0 ∧ m' = m) ∨ (flush ≠ 0 ∧ ∃ buf,
      m' = increaseWritePtr spp (m.setBuffer (.zrwa zid) buf) zid flush) := by
  unfold flushZrwa at h
  split at h
  · rename_i h₀
    cases h
    exact .inl ⟨h₀, rfl⟩
  rename_i h₀
  split at h
  · cases h
  simp only at h
  split at h
  · cases h
  · cases h
    exact .inr ⟨h₀, _, rfl⟩

structure ZrwaKept (spp : SsdParams) (ftl ftl' : ZnsFtl) (zid leak : Nat) : Prop where
  ok : ZnsOk spp ftl' leak
  zp : ftl'.zp = ftl.zp
  zone : (ftl'.zoneDescs zid).zrwav = true
  addresses : (ftl'.zoneDescs zid).zslba = (ftl.zoneDescs zid).zslba ∧
    (ftl'.zoneDescs zid).zoneCapacity = (ftl.zoneDescs zid).zoneCapacity
  others : ∀ z, z ≠ zid → ftl'.zoneDescs z = ftl.zoneDescs z
  writeBuffer : ftl'.writeBuffer = ftl.writeBuffer
  zoneWriteBuffer : ftl'.zoneWriteBuffer = ftl.zoneWriteBuffer

theorem ZrwaKept.congr {m m' : ZnsFtl} (h : ZrwaKept spp ftl m zid leak) (hp : m'.zp = m.zp)
    (hr : m'.resInfos = m.resInfos) (hd : m'.zoneDescs = m.zoneDescs)
    (hw : m'.writeBuffer = m.writeBuffer) (hb : m'.zoneWriteBuffer = m.zoneWriteBuffer) :
    ZrwaKept spp ftl m' zid leak := by
  refine ⟨h.ok.congr hp hr hd, hp.trans h.zp, ?_, ?_, ?_, hw.trans h.writeBuffer, hb.trans h.zoneWriteBuffer⟩
  · rw [hd]
    exact h.zone
  · rw [hd]
    exact h.addresses
  · rw [hd]
    exact h.others

theorem ZrwaKept.moved {m m' : ZnsFtl} {d : ZoneDescriptor} {more : Nat}
    (h : ZrwaKept spp ftl m zid leak) (hz : zid < m.zp.nrZones) (hm : Moved m m' zid d more)
    (hs : ZoneStep (m.zoneDescs zid) d) (hv : d.zrwav = true)
    (ha : d.zslba = (m.zoneDescs zid).zslba ∧ d.zoneCapacity = (m.zoneDescs zid).zoneCapacity)
    (hw : m'.writeBuffer = m.writeBuffer) (hb : m'.zoneWriteBuffer = m.zoneWriteBuffer) :
    ZrwaKept spp ftl m' zid (leak + more) := by
  have hd : m'.zoneDescs zid = d := by rw [hm.descs, Function.update_self]
  refine ⟨h.ok.moved hz hm hs, hm.zp.trans h.zp, ?_, ?_, ?_, hw.trans h.writeBuffer,
    hb.trans h.zoneWriteBuffer⟩
  · rw [hd]
    exact hv
  · rw [hd]
    exact ⟨ha.1.trans h.addresses.1, ha.2.trans h.addresses.2⟩
  · intro z hne
    rw [hm.descs, Function.update_of_ne hne]
    exact h.others z hne

theorem ZrwaKept.refl (k : ZnsOk spp ftl leak) (hv : (ftl.zoneDescs zid).zrwav = true) :
    ZrwaKept spp ftl ftl zid leak := ⟨k, rfl, hv, ⟨rfl, rfl⟩, fun _ _ => rfl, rfl, rfl⟩

theorem ZrwaAdmitted.kept (k : ZnsOk spp ftl leak) (hz : zid < ftl.zp.nrZones)
    (hv : (ftl.zoneDescs zid).zrwav = true) {r : ZnsFtl × Nat} (h : ZrwaAdmitted ftl zid r) :
    ZrwaKept spp ftl r.1 zid leak := by
  by_cases hs : r.2 = nvmeScSuccess
  · obtain ⟨s, ho, hm⟩ := h.moved hs
    exact (ZrwaKept.refl k hv).moved hz hm (.action (g := False) (.activate (.inr (h.source hs)) (.inl ho)))
      hv ⟨rfl, rfl⟩ h.writeBuffer h.zoneWriteBuffer
  · rw [h.failed hs]
    exact .refl k hv

/-- Opening the zone moves neither its write pointer nor its end. -/
theorem ZrwaAdmitted.wp (spp : SsdParams) {m : ZnsFtl} (h : ZrwaAdmitted ftl zid (m, nvmeScSuccess)) :
    Opened (m.zoneDescs zid) ∧ (m.zoneDescs zid).wp = (ftl.zoneDescs zid).wp ∧
      fullAt spp m zid = fullAt spp ftl zid := by
  obtain ⟨s, ho, hm⟩ := h.moved rfl
  have hd : m.zoneDescs zid = { ftl.zoneDescs zid with state := s } := by
    rw [hm.descs, Function.update_self]
  have hp : m.zp = ftl.zp := hm.zp
  refine ⟨?_, ?_, ?_⟩
  · rw [hd]
    exact ho
  · rw [hd]
  · rw [fullAt, fullAt, hd, hp]

theorem increaseWritePtr_kept {m : ZnsFtl} (h : ZrwaKept spp ftl m zid leak)
    (hz : zid < m.zp.nrZones) (ho : Opened (m.zoneDescs zid)) (n : Nat) :
    (u64 ((m.zoneDescs zid).wp + u32 n) = fullAt spp m zid →
      ZrwaKept spp ftl (increaseWritePtr spp m zid n) zid (leak + 1)) ∧
    (u64 ((m.zoneDescs zid).wp + u32 n) ≠ fullAt spp m zid →
      ZrwaKept spp ftl (increaseWritePtr spp m zid n) zid leak) := by
  have hb := increaseWritePtr_buffers spp m zid n
  have hzr := h.zone
  rcases increaseWritePtr_moved h.ok hz ho rfl with ⟨hw, hm⟩ | ⟨hw, hm⟩
  · refine ⟨fun _ => ?_, fun hne => absurd hw hne⟩
    have hk := h.moved hz hm (.fill ho) hzr ⟨rfl, rfl⟩ hb.writeBuffer hb.zoneWriteBuffer
    rwa [hzr] at hk
  · exact ⟨fun heq => absurd heq hw, fun _ =>
      h.moved hz hm (.advance ho) hzr ⟨rfl, rfl⟩ hb.writeBuffer hb.zoneWriteBuffer⟩

theorem setZrwa_kept {m : ZnsFtl} (h : ZrwaKept spp ftl m zid leak) (buf : Buffer) :
    ZrwaKept spp ftl (m.setBuffer (.zrwa zid) buf) zid leak :=
  h.congr rfl rfl rfl rfl rfl

theorem znsWriteZrwa_kept {req : ZnsRequest} {ret : NvmevResult} {out : ZnsOutcome}
    (k : ZnsOk spp ftl leak) (hv : (ftl.zoneDescs (zoneOf spp ftl req.cmd)).zrwav = true)
    (h : znsWriteZrwa clk spp ftl req ret = .ok out) :
    (FillsZrwa spp ftl req.cmd →
      ZrwaKept spp ftl out.ftl (zoneOf spp ftl req.cmd) (leak + 1)) ∧
    (¬ FillsZrwa spp ftl req.cmd → ZrwaKept spp ftl out.ftl (zoneOf spp ftl req.cmd) leak) := by
  obtain ⟨hz, hcase⟩ := znsWriteZrwa_cases h
  cases hcase with
  | rejected checks failed =>
    refine ⟨fun ⟨m, flush, m', hadm, _⟩ => ?_, fun _ => (admitZrwaWrite_admitted k hz hv checks).kept k hz hv⟩
    rw [checks] at hadm
    exact absurd (Prod.mk.inj (Except.ok.inj hadm)).2 failed
  | refused checks amount short =>
    refine ⟨fun ⟨m, flush, m', hadm, hn, hf, _⟩ => ?_, fun _ => ?_⟩
    · rw [checks] at hadm
      obtain ⟨rfl, _⟩ := Prod.mk.inj (Except.ok.inj hadm)
      rw [amount] at hn
      obtain rfl := Except.ok.inj hn
      rw [short] at hf
      cases hf
    · exact setZrwa_kept ((admitZrwaWrite_admitted k hz hv checks).kept k hz hv) _
  | @written m m' flush _ _ _ checks amount flushed =>
    have hadm := admitZrwaWrite_admitted k hz hv checks
    have hk : ZrwaKept spp ftl m (zoneOf spp ftl req.cmd) leak := hadm.kept k hz hv
    obtain ⟨ho, hwp, hfull⟩ := hadm.wp spp
    have hiff : FillsZrwa spp ftl req.cmd ↔ flush ≠ 0 ∧
        u64 ((ftl.zoneDescs (zoneOf spp ftl req.cmd)).wp + u32 flush) =
          fullAt spp ftl (zoneOf spp ftl req.cmd) := by
      constructor
      · rintro ⟨m₁, flush₁, m₂, h₁, h₂, _, h₄, h₅⟩
        rw [checks] at h₁
        obtain ⟨rfl, _⟩ := Prod.mk.inj (Except.ok.inj h₁)
        rw [amount] at h₂
        obtain rfl := Except.ok.inj h₂
        exact ⟨h₄, h₅⟩
      · exact fun ⟨h₄, h₅⟩ => ⟨m, flush, m', checks, amount, flushed, h₄, h₅⟩
    rw [hiff]
    rcases flushZrwa_some flushed with ⟨h₀, rfl⟩ | ⟨h₀, buf, rfl⟩
    · exact ⟨fun h => absurd h₀ h.1, fun _ => hk.congr rfl rfl rfl rfl rfl⟩
    · have hz' : zoneOf spp ftl req.cmd < (m.setBuffer (.zrwa (zoneOf spp ftl req.cmd)) buf).zp.nrZones := by
        rw [ZnsFtl.setBuffer_zp, hk.zp]
        exact hz
      have hinc := increaseWritePtr_kept (setZrwa_kept hk buf) hz' ho flush
      rw [show u64 (((m.setBuffer (.zrwa (zoneOf spp ftl req.cmd)) buf).zoneDescs
          (zoneOf spp ftl req.cmd)).wp + u32 flush) =
          u64 ((ftl.zoneDescs (zoneOf spp ftl req.cmd)).wp + u32 flush) from hwp ▸ rfl,
        show fullAt spp (m.setBuffer (.zrwa (zoneOf spp ftl req.cmd)) buf) (zoneOf spp ftl req.cmd) =
          fullAt spp ftl (zoneOf spp ftl req.cmd) from hfull] at hinc
      exact ⟨fun h => (hinc.1 h.2).congr rfl rfl rfl rfl rfl,
        fun h => (hinc.2 (fun he => h ⟨h₀, he⟩)).congr rfl rfl rfl rfl rfl⟩

end NVMeVirt
