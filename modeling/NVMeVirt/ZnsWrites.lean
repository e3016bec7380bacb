import NVMeVirt.ZnsActions

/-!
# What a write does to a zone

The outcomes of `__zns_write` and `__zns_write_zrwa` case by case, and the steps that they
take on the zone: it is opened if need be, then its write pointer moves.
-/

namespace NVMeVirt
set_option autoImplicit false
open Outcome

variable {clk : Nat → Nat} {spp : SsdParams} {ftl ftl' : ZnsFtl} {zid leak : Nat}

namespace ZnsFtl

variable (ftl : ZnsFtl) (ref : BufferRef) (buf : Buffer)

@[simp] theorem setBuffer_zp : (ftl.setBuffer ref buf).zp = ftl.zp := by cases ref <;> rfl
@[simp] theorem setBuffer_ssd : (ftl.setBuffer ref buf).ssd = ftl.ssd := by cases ref <;> rfl
@[simp] theorem setBuffer_resInfos : (ftl.setBuffer ref buf).resInfos = ftl.resInfos := by
  cases ref <;> rfl
@[simp] theorem setBuffer_zoneDescs : (ftl.setBuffer ref buf).zoneDescs = ftl.zoneDescs := by
  cases ref <;> rfl

end ZnsFtl

theorem ZnsOk.setBuffer (k : ZnsOk spp ftl leak) (ref : BufferRef) (buf : Buffer) :
    ZnsOk spp (ftl.setBuffer ref buf) leak :=
  k.congr (ftl.setBuffer_zp ref buf) (ftl.setBuffer_resInfos ref buf) (ftl.setBuffer_zoneDescs ref buf)

structure SameBuffers (ftl ftl' : ZnsFtl) : Prop where
  writeBuffer : ftl'.writeBuffer = ftl.writeBuffer
  zoneWriteBuffer : ftl'.zoneWriteBuffer = ftl.zoneWriteBuffer
  zwraBuffer : ftl'.zwraBuffer = ftl.zwraBuffer

theorem SameBuffers.refl : SameBuffers ftl ftl := ⟨rfl, rfl, rfl⟩

structure Admitted (ftl : ZnsFtl) (zid : Nat) (r : ZnsFtl × Nat) : Prop where
  failed : r.2 ≠ nvmeScSuccess → r.1 = ftl
  opened : r.2 = nvmeScSuccess → (ftl.zoneDescs zid).state = .empty ∨ Active (ftl.zoneDescs zid)
  moved : r.2 = nvmeScSuccess → ∃ s, (s = .openedImpl ∨ s = .openedExpl) ∧
    Moved ftl r.1 zid { ftl.zoneDescs zid with state := s } 0
  buffers : SameBuffers ftl r.1

theorem Admitted.refuse {status : Nat} (h : status ≠ nvmeScSuccess) : Admitted ftl zid (ftl, status) :=
  ⟨fun _ => rfl, fun h' => absurd h' h, fun h' => absurd h' h, .refl⟩

theorem Admitted.ready (k : ZnsOk spp ftl leak) (h : Opened (ftl.zoneDescs zid)) :
    Admitted ftl zid (ftl, nvmeScSuccess) :=
  ⟨fun _ => rfl, fun _ => .inr (.inl h), fun _ => ⟨_, h, .stay k⟩, .refl⟩

theorem openClosedForWrite_avail {m : ZnsFtl}
    (h : (m.resInfos .openZone).acquiredCnt < (m.resInfos .openZone).totalCnt) :
    openClosedForWrite m zid =
      ((m.setCnt .openZone ((m.resInfos .openZone).acquiredCnt + 1)).changeZoneState zid .openedImpl,
        nvmeScSuccess) := by
  unfold openClosedForWrite
  rw [ZnsFtl.acquireZoneResource_avail h]

theorem openClosedForWrite_admitted (k : ZnsOk spp ftl leak) (hz : zid < ftl.zp.nrZones)
    (hs : (ftl.zoneDescs zid).state = .closed) : Admitted ftl zid (openClosedForWrite ftl zid) := by
  obtain ⟨ho, hac, hzr⟩ := closed_holds hs
  by_cases h : (ftl.resInfos .openZone).acquiredCnt < (ftl.resInfos .openZone).totalCnt
  · rw [openClosedForWrite_avail h]
    refine ⟨by simp, fun _ => .inr (.inr hs), fun _ => ⟨.openedImpl, .inl rfl, ?_⟩, ⟨rfl, rfl, rfl⟩⟩
    refine Moved.of_counts k hz rfl rfl ?_ ?_
    · intro t
      cases t <;> simp [ho, hac, hzr, holds_openedImpl]
    · rw [k.ledger.total] at h
      intro t
      cases t <;> simp +contextual [h, hac, hzr, holds_openedImpl]
  · unfold openClosedForWrite
    rw [ZnsFtl.acquireZoneResource_full h]
    exact .refuse (by decide)

theorem openEmptyForWrite_admitted (k : ZnsOk spp ftl leak) (hz : zid < ftl.zp.nrZones)
    (hs : (ftl.zoneDescs zid).state = .empty)
    (h₁ : (ftl.resInfos .activeZone).acquiredCnt < ftl.zp.nrZones)
    (h₂ : (ftl.resInfos .openZone).acquiredCnt < ftl.zp.nrZones) :
    Admitted ftl zid (openClosedForWrite (ftl.acquireZoneResource .activeZone).1 zid) := by
  have hidle := idle_holds (not_active_empty hs)
  have hv := (k.zones zid hz).plain hs
  rw [ZnsFtl.acquireZoneResource_avail (by rw [k.ledger.total]; exact h₁),
    openClosedForWrite_avail (by simpa [k.ledger.total] using h₂)]
  refine ⟨by simp, fun _ => .inl hs, fun _ => ⟨.openedImpl, .inl rfl, ?_⟩, ⟨rfl, rfl, rfl⟩⟩
  refine Moved.of_counts k hz rfl rfl ?_ ?_
  · intro t
    cases t <;> simp [hidle, hv, holds_openedImpl]
  · intro t
    cases t <;> simp [h₁, h₂, hv, holds_openedImpl]

theorem openForWrite_admitted (k : ZnsOk spp ftl leak) (hz : zid < ftl.zp.nrZones) (slba : Nat) :
    Admitted ftl zid (openForWrite ftl zid slba) := by
  unfold openForWrite
  split
  case h_1 hs =>
    split
    · exact .refuse (by decide)
    split
    · exact .refuse (by decide)
    rename_i h₁
    split
    · exact .refuse (by decide)
    rename_i h₂
    exact openEmptyForWrite_admitted k hz hs (k.avail h₁) (k.avail h₂)
  case h_2 hs => exact openClosedForWrite_admitted k hz hs
  case h_3 hs => exact .ready k (.inl hs)
  case h_4 hs => exact .ready k (.inr hs)
  case h_5 => exact .refuse (by decide)
  case h_6 => exact .refuse (by decide)
  case h_7 => exact .refuse (by decide)

structure WriteChecks (spp : SsdParams) (ftl : ZnsFtl) (zid slba nrLba : Nat) : Prop where
  unit : lbaToByte nrLba % spp.writeUnitSize = 0
  boundary : checkBoundaryError spp ftl.zp slba nrLba = true
  wp : slba = (ftl.zoneDescs zid).wp

theorem admitWrite_admitted (k : ZnsOk spp ftl leak) (hz : zid < ftl.zp.nrZones) (slba nrLba : Nat) :
    Admitted ftl zid (admitWrite spp ftl zid slba nrLba) ∧
      ((admitWrite spp ftl zid slba nrLba).2 = nvmeScSuccess → WriteChecks spp ftl zid slba nrLba) := by
  have refuse : ∀ {status : Nat}, status ≠ nvmeScSuccess → Admitted ftl zid (ftl, status) ∧
      (status = nvmeScSuccess → WriteChecks spp ftl zid slba nrLba) :=
    fun h => ⟨.refuse h, fun h' => absurd h' h⟩
  unfold admitWrite
  split
  · exact refuse (by decide)
  rename_i h₁
  split
  · exact refuse (by decide)
  rename_i h₂
  split
  · exact refuse (by decide)
  rename_i h₃
  exact ⟨openForWrite_admitted k hz slba, fun _ =>
    ⟨Decidable.of_not_not h₁, Bool.eq_true_of_not_eq_false h₂, Decidable.of_not_not h₃⟩⟩

/-- The write pointer at which the code takes the zone for full. -/
def fullAt (spp : SsdParams) (ftl : ZnsFtl) (zid : Nat) : Nat :=
  u64 (zoneToSlba spp ftl.zp zid + (ftl.zoneDescs zid).zoneCapacity)

theorem PointersOk.fullAt_eq (p : PointersOk spp ftl) (hz : zid < ftl.zp.nrZones) :
    fullAt spp ftl zid = (ftl.zoneDescs zid).zoneEnd := by
  have hlt := p.addressable.zone_end_le hz
  rw [fullAt, p.zoneEnd_eq hz, p.capacity zid hz, p.addressable.zoneToSlba_eq (Nat.le_of_lt hz)]
  exact u64_eq (by omega)

/-- The move of an open zone's write pointer to `w`; at the end of the zone it becomes full, and
the random write area is what it does not give back. -/
theorem increaseWritePtr_moved (k : ZnsOk spp ftl leak) (hz : zid < ftl.zp.nrZones)
    (ho : Opened (ftl.zoneDescs zid)) {n w : Nat} (hw : u64 ((ftl.zoneDescs zid).wp + u32 n) = w) :
    (w = fullAt spp ftl zid ∧
      Moved ftl (increaseWritePtr spp ftl zid n) zid { ftl.zoneDescs zid with wp := w, state := .full }
        (ftl.zoneDescs zid).zrwav.toNat) ∨
    (w ≠ fullAt spp ftl zid ∧
      Moved ftl (increaseWritePtr spp ftl zid n) zid { ftl.zoneDescs zid with wp := w } 0) := by
  obtain ⟨hopen, hact, hzrwa⟩ := opened_holds ho
  unfold increaseWritePtr
  simp only [ZnsFtl.setDesc_zp, hw]
  rw [show u64 (zoneToSlba spp ftl.zp zid + (ftl.zoneDescs zid).zoneCapacity) = fullAt spp ftl zid from rfl]
  by_cases h : w = fullAt spp ftl zid
  · refine .inl ⟨h, ?_⟩
    rw [if_pos h, k.release hz hopen (m := ftl.setDesc zid _) rfl, k.release hz hact (by simp)]
    have hidle := fun t => idle_holds (t := t) (d := { ftl.zoneDescs zid with wp := w, state := .full })
      (not_active_full rfl)
    refine Moved.of_leak k hz rfl (by simp) ?_ ?_ ?_
    · intro t
      rw [hidle]
      have hheld := k.ledger.held (t := .zrwaZone) hz
      rw [hzrwa] at hheld
      cases t
      · simp [hact, leakOf]
      · simp [hopen, leakOf]
      · cases hv : (ftl.zoneDescs zid).zrwav
        · simp [hzrwa, hv, leakOf]
        · have hpos := hheld hv
          simp only [hzrwa, hv, leakOf, if_true, Bool.toNat_true, Bool.toNat_false, Nat.add_zero,
            Nat.sub_add_cancel hpos]
          simp
    · intro t ht
      rw [hidle] at ht
      exact absurd ht (by decide)
    · intro t
      rw [hidle]
      cases t <;> simp [leakOf, hzrwa]
  · rw [if_neg h]
    exact .inr ⟨h, .setWp k hz w⟩

theorem increaseWritePtr_buffers (spp : SsdParams) (ftl : ZnsFtl) (zid n : Nat) :
    SameBuffers ftl (increaseWritePtr spp ftl zid n) := by
  unfold increaseWritePtr
  simp only
  split <;> exact ⟨rfl, rfl, rfl⟩

/-- The zone that the submitted command names. -/
def zoneOf (spp : SsdParams) (ftl : ZnsFtl) (cmd : ZnsCommand) : Nat := lbaToZone spp ftl.zp cmd.slba

/-- The LBA that the command is carried out at: an append goes to the write pointer. -/
def writeLba (spp : SsdParams) (ftl : ZnsFtl) (cmd : ZnsCommand) : Nat :=
  if cmd.opcode = .zoneAppend then (ftl.zoneDescs (zoneOf spp ftl cmd)).wp else cmd.slba

/-- The state once the write has its buffer space. -/
def charged (spp : SsdParams) (ftl : ZnsFtl) (cmd : ZnsCommand) : ZnsFtl :=
  let ref := writeBufferOf ftl (zoneOf spp ftl cmd)
  ftl.setBuffer ref { ftl.buffer ref with
    remaining := (ftl.buffer ref).remaining - lbaToByte (nrLbasFromRwCmd cmd) }

/-- The checks of the write, with the buffer space taken. -/
def admission (spp : SsdParams) (ftl : ZnsFtl) (cmd : ZnsCommand) : ZnsFtl × Nat :=
  admitWrite spp (charged spp ftl cmd) (zoneOf spp ftl cmd) (writeLba spp ftl cmd) (nrLbasFromRwCmd cmd)

def firstLpn (spp : SsdParams) (ftl : ZnsFtl) (cmd : ZnsCommand) : Nat :=
  lbaToLpn spp (writeLba spp ftl cmd)

def lastLpn (spp : SsdParams) (ftl : ZnsFtl) (cmd : ZnsCommand) : Nat :=
  lbaToLpn spp (u64 (writeLba spp ftl cmd + nrLbasFromRwCmd cmd + (2^64 - 1)))

/-- Whether the write finds the space it needs. -/
def HasRoom (spp : SsdParams) (ftl : ZnsFtl) (cmd : ZnsCommand) : Prop :=
  lbaToByte (nrLbasFromRwCmd cmd) ≤ (ftl.buffer (writeBufferOf ftl (zoneOf spp ftl cmd))).remaining

/-- The three ways a plain write can end. -/
inductive PlainWrite (clk : Nat → Nat) (spp : SsdParams) (ftl : ZnsFtl) (req : ZnsRequest)
    (ret : NvmevResult) : ZnsOutcome → Prop
  | refused (short : ¬ HasRoom spp ftl req.cmd) :
      PlainWrite clk spp ftl req ret
        ⟨false, ftl, { req.cmd with slba := writeLba spp ftl req.cmd }, ret, []⟩
  | rejected (room : HasRoom spp ftl req.cmd)
      (failed : (admission spp ftl req.cmd).2 ≠ nvmeScSuccess) :
      PlainWrite clk spp ftl req ret
        ⟨true, (admission spp ftl req.cmd).1, { req.cmd with slba := writeLba spp ftl req.cmd },
          ⟨(admission spp ftl req.cmd).2, req.nsecsStart⟩, []⟩
  | written {t target : Nat} {ssd : Ssd} {p : ProgramState} (room : HasRoom spp ftl req.cmd)
      (passed : (admission spp ftl req.cmd).2 = nvmeScSuccess)
      (pages : writePages clk spp ftl.zp (zoneToElpn spp ftl.zp (zoneOf spp ftl req.cmd))
        (lastLpn spp ftl req.cmd) t req.sqId (writeBufferOf ftl (zoneOf spp ftl req.cmd))
        (lastLpn spp ftl req.cmd + 1 - firstLpn spp ftl req.cmd) (firstLpn spp ftl req.cmd)
        ⟨ssd, t, []⟩ = .ok p) :
      PlainWrite clk spp ftl req ret
        ⟨true, { increaseWritePtr spp (admission spp ftl req.cmd).1 (zoneOf spp ftl req.cmd)
            (nrLbasFromRwCmd req.cmd) with ssd := p.ssd },
          { req.cmd with slba := writeLba spp ftl req.cmd }, ⟨nvmeScSuccess, target⟩, p.calls⟩

theorem increaseWritePtr_zp (spp : SsdParams) (ftl : ZnsFtl) (zid n : Nat) :
    (increaseWritePtr spp ftl zid n).zp = ftl.zp := by
  unfold increaseWritePtr
  simp only
  split <;> rfl

theorem admitWrite_zp (spp : SsdParams) (ftl : ZnsFtl) (zid slba n : Nat) :
    (admitWrite spp ftl zid slba n).1.zp = ftl.zp := by
  have hopen : ∀ m : ZnsFtl, (openClosedForWrite m zid).1.zp = m.zp := by
    intro m
    unfold openClosedForWrite ZnsFtl.acquireZoneResource
    cases m.isZoneResourceAvail .openZone <;> rfl
  have hact : (ftl.acquireZoneResource .activeZone).1.zp = ftl.zp := by
    unfold ZnsFtl.acquireZoneResource
    split <;> rfl
  unfold admitWrite openForWrite
  repeat' split
  all_goals first
    | rfl
    | exact hopen _
    | exact (hopen _).trans hact

theorem znsWritePlain_cases {req : ZnsRequest} {ret : NvmevResult} {out : ZnsOutcome}
    (h : znsWritePlain clk spp ftl req ret = .ok out) :
    zoneOf spp ftl req.cmd < ftl.zp.nrZones ∧ PlainWrite clk spp ftl req ret out := by
  unfold znsWritePlain at h
  simp only [pure_eq_ok] at h
  split at h
  · cases h
  rename_i hz
  refine ⟨Nat.lt_of_not_le hz, ?_⟩
  generalize hslba : (if req.cmd.opcode = .zoneAppend then
    (ftl.zoneDescs (lbaToZone spp ftl.zp req.cmd.slba)).wp else req.cmd.slba) = slba at h
  change writeLba spp ftl req.cmd = slba at hslba
  subst hslba
  have hpos : 0 < lbaToByte (nrLbasFromRwCmd req.cmd) := by
    unfold lbaToByte nrLbasFromRwCmd lbaSize lbaBits
    omega
  split at h
  · rename_i hs
    cases h
    apply PlainWrite.refused
    unfold bufferAllocate at hs
    simp only at hs
    unfold HasRoom zoneOf
    split at hs <;> omega
  rename_i hs
  obtain ⟨room, hbuf⟩ := bufferAllocate_room hpos hs
  rw [hbuf] at h
  split at h
  · rename_i hf
    cases h
    exact .rejected room hf
  rename_i hf
  obtain ⟨⟨ssd, t⟩, _, h⟩ := bind_eq_ok.mp h
  obtain ⟨p, hp, h⟩ := bind_eq_ok.mp h
  cases h
  rw [increaseWritePtr_zp, admitWrite_zp, ZnsFtl.setBuffer_zp] at hp
  exact .written room (Decidable.of_not_not hf) hp

theorem charged_ok (k : ZnsOk spp ftl leak) (cmd : ZnsCommand) : ZnsOk spp (charged spp ftl cmd) leak :=
  k.setBuffer _ _

theorem charged_zp (cmd : ZnsCommand) : (charged spp ftl cmd).zp = ftl.zp := ZnsFtl.setBuffer_zp _ _ _

theorem charged_zoneDescs (cmd : ZnsCommand) : (charged spp ftl cmd).zoneDescs = ftl.zoneDescs :=
  ZnsFtl.setBuffer_zoneDescs _ _ _

/-- A rejected write leaves the state with its buffer space taken and nothing else. -/
theorem admission_rejected (k : ZnsOk spp ftl leak) {cmd : ZnsCommand}
    (hz : zoneOf spp ftl cmd < ftl.zp.nrZones) (h : (admission spp ftl cmd).2 ≠ nvmeScSuccess) :
    (admission spp ftl cmd).1 = charged spp ftl cmd :=
  (admitWrite_admitted (charged_ok k cmd) (by rw [charged_zp]; exact hz) _ _).1.failed h

/-- A successful plain write: what it found and what it did to its zone. -/
structure ZoneWritten (spp : SsdParams) (ftl ftl' : ZnsFtl) (cmd : ZnsCommand) (leak : Nat) : Prop where
  ok : ZnsOk spp ftl' leak
  zp : ftl'.zp = ftl.zp
  checks : WriteChecks spp ftl (zoneOf spp ftl cmd) (writeLba spp ftl cmd) (nrLbasFromRwCmd cmd)
  writable : (ftl.zoneDescs (zoneOf spp ftl cmd)).state = .empty ∨
    Active (ftl.zoneDescs (zoneOf spp ftl cmd))
  zone : ∃ s, (s = .openedImpl ∨ s = .openedExpl) ∧ ftl'.zoneDescs (zoneOf spp ftl cmd) =
    { ftl.zoneDescs (zoneOf spp ftl cmd) with
      wp := u64 (writeLba spp ftl cmd + nrLbasFromRwCmd cmd)
      state := if u64 (writeLba spp ftl cmd + nrLbasFromRwCmd cmd) =
        fullAt spp ftl (zoneOf spp ftl cmd) then .full else s }
  others : ∀ z, z ≠ zoneOf spp ftl cmd → ftl'.zoneDescs z = ftl.zoneDescs z
  buffers : SameBuffers (charged spp ftl cmd) ftl'

theorem zoneWritten_of (k : ZnsOk spp ftl leak) {cmd : ZnsCommand} (hlen : cmd.length < 2^16)
    (hz : zoneOf spp ftl cmd < ftl.zp.nrZones)
    (hplain : (ftl.zoneDescs (zoneOf spp ftl cmd)).zrwav = false)
    (h : (admission spp ftl cmd).2 = nvmeScSuccess) (ssd : Ssd) :
    ZoneWritten spp ftl { increaseWritePtr spp (admission spp ftl cmd).1 (zoneOf spp ftl cmd)
      (nrLbasFromRwCmd cmd) with ssd := ssd } cmd leak := by
  have k₀ := charged_ok k cmd
  have hz₀ : zoneOf spp ftl cmd < (charged spp ftl cmd).zp.nrZones := by rwa [charged_zp]
  have hd₀ : (charged spp ftl cmd).zoneDescs = ftl.zoneDescs := charged_zoneDescs cmd
  obtain ⟨hadm, hpass⟩ := admitWrite_admitted k₀ hz₀ (writeLba spp ftl cmd) (nrLbasFromRwCmd cmd)
  have hp := hpass h
  have hopened := hadm.opened h
  obtain ⟨s, hs, hm⟩ := hadm.moved h
  have hslba := hp.wp
  have hboundary := hp.boundary
  rw [hd₀] at hopened hm hslba
  rw [charged_zp] at hboundary
  -- the zone is open now, and its write pointer is where it was
  have k₁ : ZnsOk spp (admission spp ftl cmd).1 leak :=
    k₀.moved hz₀ hm (by rw [hd₀]; exact .action (g := False) (.activate hopened (.inl hs)))
  have hzp₁ : (admission spp ftl cmd).1.zp = ftl.zp := hm.zp.trans (charged_zp cmd)
  have hz₁ : zoneOf spp ftl cmd < (admission spp ftl cmd).1.zp.nrZones := by rwa [hzp₁]
  have hd₁ : (admission spp ftl cmd).1.zoneDescs = Function.update ftl.zoneDescs (zoneOf spp ftl cmd)
      { ftl.zoneDescs (zoneOf spp ftl cmd) with state := s } := hd₀ ▸ hm.descs
  have hself : (admission spp ftl cmd).1.zoneDescs (zoneOf spp ftl cmd) =
      { ftl.zoneDescs (zoneOf spp ftl cmd) with state := s } := by
    rw [hd₁, Function.update_self]
  have hfull : fullAt spp (admission spp ftl cmd).1 (zoneOf spp ftl cmd) =
      fullAt spp ftl (zoneOf spp ftl cmd) := by
    rw [fullAt, fullAt, hself, hzp₁]
  have hu : u64 (((admission spp ftl cmd).1.zoneDescs (zoneOf spp ftl cmd)).wp +
      u32 (nrLbasFromRwCmd cmd)) = u64 (writeLba spp ftl cmd + nrLbasFromRwCmd cmd) := by
    have hn : u32 (nrLbasFromRwCmd cmd) = nrLbasFromRwCmd cmd := by
      unfold u32 nrLbasFromRwCmd
      omega
    rw [hself, hn, hslba]
  have hmoved := increaseWritePtr_moved k₁ hz₁ (by rw [hself]; exact hs) hu
  rw [hself, hplain, hfull] at hmoved
  have hb₂ := increaseWritePtr_buffers spp (admission spp ftl cmd).1 (zoneOf spp ftl cmd)
    (nrLbasFromRwCmd cmd)
  obtain ⟨d, hd, hm₂, hstep⟩ : ∃ d, d = { ftl.zoneDescs (zoneOf spp ftl cmd) with
        wp := u64 (writeLba spp ftl cmd + nrLbasFromRwCmd cmd)
        state := if u64 (writeLba spp ftl cmd + nrLbasFromRwCmd cmd) =
          fullAt spp ftl (zoneOf spp ftl cmd) then .full else s } ∧
      Moved (admission spp ftl cmd).1 (increaseWritePtr spp (admission spp ftl cmd).1
        (zoneOf spp ftl cmd) (nrLbasFromRwCmd cmd)) (zoneOf spp ftl cmd) d 0 ∧
      ZoneStep ((admission spp ftl cmd).1.zoneDescs (zoneOf spp ftl cmd)) d := by
    rw [hself]
    rcases hmoved with ⟨hf, hm₂⟩ | ⟨hf, hm₂⟩
    · exact ⟨_, by rw [if_pos hf], hm₂, .fill hs⟩
    · exact ⟨_, by rw [if_neg hf], hm₂, .advance hs⟩
  exact {
    ok := (k₁.moved hz₁ hm₂ hstep).congr rfl rfl rfl
    zp := hm₂.zp.trans hzp₁
    checks := ⟨hp.unit, hboundary, hslba⟩
    writable := hopened
    zone := ⟨s, hs, (congrFun hm₂.descs _).trans ((Function.update_self _ _ _).trans hd)⟩
    others := by
      intro z hne
      change (increaseWritePtr spp _ _ _).zoneDescs z = _
      rw [hm₂.descs, Function.update_of_ne hne, hd₁, Function.update_of_ne hne]
    buffers := ⟨hb₂.writeBuffer.trans hadm.buffers.writeBuffer,
      hb₂.zoneWriteBuffer.trans hadm.buffers.zoneWriteBuffer,
      hb₂.zwraBuffer.trans hadm.buffers.zwraBuffer⟩ }

/-- The boundary check, made at the write pointer of a zone with room, keeps the range inside. -/
theorem WriteChecks.inside (p : PointersOk spp ftl) (hz : zid < ftl.zp.nrZones) {slba n : Nat}
    (hn : n ≤ 2^16) (hpos : 0 < n) (h : WriteChecks spp ftl zid slba n)
    (hlo : (ftl.zoneDescs zid).zslba ≤ slba) (hhi : slba < (ftl.zoneDescs zid).zoneEnd) :
    slba + n ≤ (ftl.zoneDescs zid).zoneEnd := by
  have hend := p.addressable.zone_end_le hz
  have he := p.zoneEnd_eq hz
  rw [p.zslba zid hz] at hlo
  have hlast : u64 (slba + n + (2^64 - 1)) = slba + n - 1 := by
    unfold u64
    omega
  have hzone : slba / lbasPerZone ftl.zp = zid := Zoned.zone_of hlo (by omega)
  have hb := h.boundary
  simp only [checkBoundaryError, decide_eq_true_eq, hlast] at hb
  rw [p.addressable.lbaToZone_eq (by omega), p.addressable.lbaToZone_eq (by omega), hzone] at hb
  have := (p.addressable.in_zone hb.symm).2
  omega

namespace ZoneWritten

variable {cmd : ZnsCommand}

theorem below (w : ZoneWritten spp ftl ftl' cmd leak) (p : PointersOk spp ftl)
    (hz : zoneOf spp ftl cmd < ftl.zp.nrZones)
    (hplain : (ftl.zoneDescs (zoneOf spp ftl cmd)).zrwav = false) :
    writeLba spp ftl cmd < (ftl.zoneDescs (zoneOf spp ftl cmd)).zoneEnd := by
  rw [w.checks.wp]
  rcases w.writable with he | ha
  · have := p.capacity_pos hz
    rw [(p.pointers _ hz).start hplain he, ZoneDescriptor.zoneEnd]
    omega
  · exact (p.pointers _ hz).below hplain ha

theorem inside (w : ZoneWritten spp ftl ftl' cmd leak) (p : PointersOk spp ftl)
    (hlen : cmd.length < 2^16) (hz : zoneOf spp ftl cmd < ftl.zp.nrZones)
    (hplain : (ftl.zoneDescs (zoneOf spp ftl cmd)).zrwav = false) :
    writeLba spp ftl cmd + nrLbasFromRwCmd cmd ≤ (ftl.zoneDescs (zoneOf spp ftl cmd)).zoneEnd := by
  apply w.checks.inside p hz hlen (Nat.succ_pos _) _ (w.below p hz hplain)
  rw [w.checks.wp]
  exact (p.pointers _ hz).lower hplain

theorem wp (w : ZoneWritten spp ftl ftl' cmd leak) (p : PointersOk spp ftl)
    (hlen : cmd.length < 2^16) (hz : zoneOf spp ftl cmd < ftl.zp.nrZones)
    (hplain : (ftl.zoneDescs (zoneOf spp ftl cmd)).zrwav = false) :
    u64 (writeLba spp ftl cmd + nrLbasFromRwCmd cmd) = writeLba spp ftl cmd + nrLbasFromRwCmd cmd := by
  have hin := w.inside p hlen hz hplain
  have hend := p.addressable.zone_end_le hz
  rw [p.zoneEnd_eq hz] at hin
  exact u64_eq (by omega)

theorem pointers (w : ZoneWritten spp ftl ftl' cmd leak) (p : PointersOk spp ftl)
    (hlen : cmd.length < 2^16) (hz : zoneOf spp ftl cmd < ftl.zp.nrZones)
    (hplain : (ftl.zoneDescs (zoneOf spp ftl cmd)).zrwav = false) : PointersOk spp ftl' := by
  obtain ⟨s, hs, hd⟩ := w.zone
  have hin := w.inside p hlen hz hplain
  rw [w.wp p hlen hz hplain, p.fullAt_eq hz] at hd
  have hlo : (ftl.zoneDescs (zoneOf spp ftl cmd)).zslba ≤ writeLba spp ftl cmd + nrLbasFromRwCmd cmd := by
    rw [w.checks.wp]
    exact Nat.le_trans ((p.pointers _ hz).lower hplain) (Nat.le_add_right _ _)
  have hdescs : ftl'.zoneDescs = Function.update ftl.zoneDescs (zoneOf spp ftl cmd)
      (ftl'.zoneDescs (zoneOf spp ftl cmd)) := by
    funext z
    by_cases hne : z = zoneOf spp ftl cmd
    · rw [hne, Function.update_self]
    · rw [Function.update_of_ne hne, w.others z hne]
  rw [hd] at hdescs
  refine p.set hz w.zp hdescs rfl rfl ?_
  by_cases hfull : writeLba spp ftl cmd + nrLbasFromRwCmd cmd = (ftl.zoneDescs (zoneOf spp ftl cmd)).zoneEnd
  · rw [if_pos hfull]
    exact ⟨fun _ h => absurd h (by simp), fun _ => hlo, fun _ => hin,
      fun _ h => absurd h (not_active_full rfl)⟩
  · rw [if_neg hfull]
    have hne : s ≠ .empty := by rcases hs with rfl | rfl <;> simp
    exact ⟨fun _ h => absurd h hne, fun _ => hlo, fun _ => hin, fun _ _ => Nat.lt_of_le_of_ne hin hfull⟩

end ZoneWritten

end NVMeVirt
