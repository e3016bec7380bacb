import NVMeVirt.ZnsRun

/-!
# Retried zone appends

`__zns_write` writes the zone's write pointer into the submission entry before it can refuse the
command, and the retry finds its zone by that LBA. The write pointer of a zone that is full up
to its end is the first LBA of the next zone.
-/

namespace NVMeVirt
set_option autoImplicit false
open Outcome

variable {clk : Nat → Nat} {spp : SsdParams} {ftl ftl' : ZnsFtl} {leak : Nat}

/-- The write pointer of the zone went forward, in 64-bit arithmetic. -/
def Advances (ftl ftl' : ZnsFtl) (z : Nat) : Prop :=
  ∃ n, 0 < n ∧ n < 2^32 ∧ (ftl'.zoneDescs z).wp = u64 ((ftl.zoneDescs z).wp + n)

/-- The command went to zone `z`, or failed and moved no write pointer. -/
def AppliedTo (ftl : ZnsFtl) (out : ZnsOutcome) (z : Nat) : Prop :=
  (out.ret.status = nvmeScSuccess ∧ Advances ftl out.ftl z ∧
    ∀ z', z' ≠ z → (out.ftl.zoneDescs z').wp = (ftl.zoneDescs z').wp) ∨
  (out.ret.status ≠ nvmeScSuccess ∧ ∀ z', (out.ftl.zoneDescs z').wp = (ftl.zoneDescs z').wp)

/-- The write pointer that an append gets lies in the zone that it names. -/
def PointerInside (spp : SsdParams) (ftl : ZnsFtl) (cmd : ZnsCommand) : Prop :=
  (ftl.zoneDescs (zoneOf spp ftl cmd)).zrwav = false →
    lbaToZone spp ftl.zp (ftl.zoneDescs (zoneOf spp ftl cmd)).wp = zoneOf spp ftl cmd

/-- A write to a random write area that passes its checks flushes something. -/
def FlushesSome (spp : SsdParams) (ftl : ZnsFtl) (cmd : ZnsCommand) : Prop :=
  (ftl.zoneDescs (zoneOf spp ftl cmd)).zrwav = true → ∀ m flush,
    admitZrwaWrite spp ftl (zoneOf spp ftl cmd) cmd.slba (nrLbasFromRwCmd cmd) = .ok (m, nvmeScSuccess) →
    nrLbasFlush spp m (zoneOf spp ftl cmd) (lastLba cmd) = .ok flush → u32 flush ≠ 0

/-- The submission entry of `submitted` between its attempts. Other commands and releases come in
between; `Good` is asked of every attempt that is refused. -/
inductive Retried (clk : Nat → Nat) (cfg : ZnsConfig) (old : ZnsParams) (size : Nat) (spp : SsdParams)
    (Good : ZnsFtl → ZnsCommand → Prop) (submitted : ZnsCommand) : ZnsCommand → ZnsFtl → Prop
  | first {ftl : ZnsFtl} (h : ZnsReachable clk cfg old size spp (fun _ _ => True) ftl) :
      Retried clk cfg old size spp Good submitted submitted ftl
  | refused {ftl : ZnsFtl} {garbage : Nat} {req : ZnsRequest} {ret : NvmevResult} {out : ZnsOutcome}
      (before : Retried clk cfg old size spp Good submitted req.cmd ftl) (good : Good ftl req.cmd)
      (h : znsProcNvmeIoCmd clk spp garbage ftl req ret = .ok out) (again : out.accepted = false) :
      Retried clk cfg old size spp Good submitted out.cmd out.ftl
  | command {cmd : ZnsCommand} {ftl : ZnsFtl} {garbage : Nat} {req : ZnsRequest} {ret : NvmevResult}
      {out : ZnsOutcome} (before : Retried clk cfg old size spp Good submitted cmd ftl)
      (length : req.cmd.length < 2^16) (h : znsProcNvmeIoCmd clk spp garbage ftl req ret = .ok out) :
      Retried clk cfg old size spp Good submitted cmd out.ftl
  | release {cmd : ZnsCommand} {ftl : ZnsFtl} (before : Retried clk cfg old size spp Good submitted cmd ftl)
      (ref : BufferRef) (n : Nat) :
      Retried clk cfg old size spp Good submitted cmd
        (ftl.setBuffer ref (bufferRelease (ftl.buffer ref) n))

theorem znsProcNvmeIoCmd_append {garbage : Nat} {req : ZnsRequest} {ret : NvmevResult} {out : ZnsOutcome}
    (hop : req.cmd.opcode = .zoneAppend) (h : znsProcNvmeIoCmd clk spp garbage ftl req ret = .ok out) :
    znsWrite clk spp ftl req ret = .ok out := by
  unfold znsProcNvmeIoCmd at h
  rw [hop] at h
  exact h

/-- A refused attempt leaves the zones where they were and the entry in its zone. -/
theorem append_refused {req : ZnsRequest} {ret : NvmevResult} {out : ZnsOutcome} (k : ZnsOk spp ftl leak)
    (hop : req.cmd.opcode = .zoneAppend) (good : PointerInside spp ftl req.cmd)
    (h : znsWrite clk spp ftl req ret = .ok out) (again : out.accepted = false) :
    out.cmd.opcode = .zoneAppend ∧ out.cmd.length = req.cmd.length ∧
      zoneOf spp ftl out.cmd = zoneOf spp ftl req.cmd := by
  unfold znsWrite at h
  rw [k.zoned.lpnToZone_eq] at h
  simp only at h
  split at h
  · cases h
  split at h
  · rename_i hv
    obtain ⟨_, hcase⟩ := znsWritePlain_cases h
    cases hcase with
    | refused short =>
      refine ⟨hop, rfl, ?_⟩
      change lbaToZone spp ftl.zp (writeLba spp ftl req.cmd) = _
      rw [writeLba, if_pos hop]
      exact good hv
    | rejected room failed => cases again
    | written room passed pages => cases again
  · obtain ⟨_, hcase⟩ := znsWriteZrwa_cases h
    cases hcase with
    | rejected checks failed => cases again
    | refused checks amount short => exact ⟨hop, rfl, rfl⟩
    | written checks amount flushed => cases again

theorem plain_applied {req : ZnsRequest} {ret : NvmevResult} {out : ZnsOutcome} (k : ZnsOk spp ftl leak)
    (hlen : req.cmd.length < 2^16) (hv : (ftl.zoneDescs (zoneOf spp ftl req.cmd)).zrwav = false)
    (h : znsWritePlain clk spp ftl req ret = .ok out) (done : out.accepted = true) :
    AppliedTo ftl out (zoneOf spp ftl req.cmd) := by
  obtain ⟨hz, hcase⟩ := znsWritePlain_cases h
  cases hcase with
  | refused short => cases done
  | rejected room failed =>
    refine .inr ⟨failed, fun z => ?_⟩
    change ((admission spp ftl req.cmd).1.zoneDescs z).wp = _
    rw [admission_rejected k hz failed, charged_zoneDescs]
  | written room passed pages =>
    have w := fun ssd => zoneWritten_of k hlen hz hv passed ssd
    obtain ⟨s, _, hd⟩ := (w _).zone
    refine .inl ⟨rfl, ⟨nrLbasFromRwCmd req.cmd, Nat.succ_pos _, by unfold nrLbasFromRwCmd; omega, ?_⟩,
      fun z hne => by rw [(w _).others z hne]⟩
    rw [hd, (w default).checks.wp]

theorem increaseWritePtr_wp (ftl : ZnsFtl) (zid n z : Nat) :
    ((increaseWritePtr spp ftl zid n).zoneDescs z).wp =
      if z = zid then u64 ((ftl.zoneDescs zid).wp + u32 n) else (ftl.zoneDescs z).wp := by
  unfold increaseWritePtr
  simp only
  split
  · by_cases h : z = zid
    · simp [h, ZnsFtl.releaseZoneResource]
    · simp [h, ZnsFtl.releaseZoneResource]
  · by_cases h : z = zid
    · simp [h]
    · simp [h]

theorem zrwa_applied {req : ZnsRequest} {ret : NvmevResult} {out : ZnsOutcome} (k : ZnsOk spp ftl leak)
    (hv : (ftl.zoneDescs (zoneOf spp ftl req.cmd)).zrwav = true) (some : FlushesSome spp ftl req.cmd)
    (h : znsWriteZrwa clk spp ftl req ret = .ok out) (done : out.accepted = true) :
    AppliedTo ftl out (zoneOf spp ftl req.cmd) := by
  obtain ⟨hz, hcase⟩ := znsWriteZrwa_cases h
  cases hcase with
  | @rejected m status checks failed =>
    have hm : m = ftl := (admitZrwaWrite_admitted k hz hv checks).failed failed
    exact .inr ⟨failed, fun z => by rw [hm]⟩
  | refused checks amount short => cases done
  | @written m m' flush _ _ _ checks amount flushed =>
    have hadm := admitZrwaWrite_admitted k hz hv checks
    have hsame : ∀ z, (m.zoneDescs z).wp = (ftl.zoneDescs z).wp := by
      obtain ⟨s, _, hm⟩ := hadm.moved rfl
      intro z
      rw [show m.zoneDescs = _ from hm.descs]
      by_cases hne : z = zoneOf spp ftl req.cmd
      · rw [hne, Function.update_self]
      · rw [Function.update_of_ne hne]
    have hflush := some hv m flush checks amount
    rcases flushZrwa_some flushed with ⟨h₀, _⟩ | ⟨_, buf, rfl⟩
    · rw [h₀] at hflush
      exact absurd rfl hflush
    · refine .inl ⟨rfl, ⟨u32 flush, Nat.pos_of_ne_zero hflush, Nat.mod_lt _ (by decide), ?_⟩,
        fun z hne => ?_⟩
      · change ((increaseWritePtr spp _ _ _).zoneDescs _).wp = _
        rw [increaseWritePtr_wp, if_pos rfl, ZnsFtl.setBuffer_zoneDescs, hsame]
      · change ((increaseWritePtr spp _ _ _).zoneDescs _).wp = _
        rw [increaseWritePtr_wp, if_neg hne, ZnsFtl.setBuffer_zoneDescs, hsame]

theorem append_applied {req : ZnsRequest} {ret : NvmevResult} {out : ZnsOutcome} (k : ZnsOk spp ftl leak)
    (hlen : req.cmd.length < 2^16) (some : FlushesSome spp ftl req.cmd)
    (h : znsWrite clk spp ftl req ret = .ok out) (done : out.accepted = true) :
    AppliedTo ftl out (zoneOf spp ftl req.cmd) := by
  unfold znsWrite at h
  rw [k.zoned.lpnToZone_eq] at h
  simp only at h
  split at h
  · cases h
  split at h
  · rename_i hv
    exact plain_applied k hlen hv h done
  · rename_i hv
    exact zrwa_applied k (Bool.eq_true_of_not_eq_false hv) some h done

namespace Retried

variable {cfg : ZnsConfig} {old : ZnsParams} {size : Nat} {submitted cmd : ZnsCommand}
  {Good : ZnsFtl → ZnsCommand → Prop}

/-- The entry stays an append of its length to its zone, and the state stays a reachable one. -/
theorem kept (hop : submitted.opcode = .zoneAppend) (hlen : submitted.length < 2^16)
    (hgood : ∀ ftl cmd, Good ftl cmd → PointerInside spp ftl cmd)
    (h : Retried clk cfg old size spp Good submitted cmd ftl) :
    (∃ leak, ZnsOk spp ftl leak) ∧ cmd.opcode = .zoneAppend ∧ cmd.length < 2^16 ∧
      zoneOf spp ftl cmd = zoneOf spp ftl submitted := by
  induction h with
  | first h => exact ⟨h.ok, hop, hlen, rfl⟩
  | @refused ftl garbage req ret out before good h again ih =>
    obtain ⟨⟨leak, k⟩, hop', hlen', hzone⟩ := ih
    obtain ⟨h₁, h₂, h₃⟩ := append_refused k hop' (hgood _ _ good) (znsProcNvmeIoCmd_append hop' h) again
    have hk := znsProcNvmeIoCmd_kept k hlen' h
    refine ⟨hk.some, h₁, by omega, ?_⟩
    unfold zoneOf at hzone h₃ ⊢
    rw [hk.zp, h₃, hzone]
  | command before length h ih =>
    obtain ⟨⟨leak, k⟩, hop', hlen', hzone⟩ := ih
    have hk := znsProcNvmeIoCmd_kept k length h
    refine ⟨hk.some, hop', hlen', ?_⟩
    unfold zoneOf at hzone ⊢
    rw [hk.zp, hzone]
  | release before ref n ih =>
    obtain ⟨⟨leak, k⟩, hop', hlen', hzone⟩ := ih
    refine ⟨⟨leak, k.setBuffer ref _⟩, hop', hlen', ?_⟩
    unfold zoneOf at hzone ⊢
    rw [ZnsFtl.setBuffer_zp, hzone]

end Retried

/-- When every refused attempt found the write pointer inside the zone, the attempt that is carried
out goes to the zone that was submitted. -/
theorem append_reaches_zone {cfg : ZnsConfig} {old : ZnsParams} {size garbage : Nat}
    {submitted : ZnsCommand} {req : ZnsRequest} {ret : NvmevResult} {out : ZnsOutcome}
    (hop : submitted.opcode = .zoneAppend) (hlen : submitted.length < 2^16)
    (h : Retried clk cfg old size spp (PointerInside spp) submitted req.cmd ftl)
    (some : FlushesSome spp ftl req.cmd)
    (hproc : znsProcNvmeIoCmd clk spp garbage ftl req ret = .ok out) (done : out.accepted = true) :
    AppliedTo ftl out (lbaToZone spp ftl.zp submitted.slba) := by
  obtain ⟨⟨leak, k⟩, hop', hlen', hzone⟩ := h.kept hop hlen (fun _ _ hg => hg)
  have ha := append_applied k hlen' some (znsProcNvmeIoCmd_append hop' hproc) done
  rw [hzone] at ha
  exact ha

/-- Two zones of 8 KiB. -/
def smallZones (zoneWbSize : Nat) : ZnsConfig :=
  { wdZn540 with zoneSize := 8192, blkSize := 8192 / 32, zoneWbSize := zoneWbSize }

def writeAtZero (length : Nat) : ZnsRequest := ⟨⟨.write, 0, length, false, .other, false, 0, 0, 0⟩, 1, 0⟩
def appendAt (slba length : Nat) : ZnsRequest :=
  ⟨⟨.zoneAppend, slba, length, false, .other, false, 0, 0, 0⟩, 1, 0⟩

/-- One refused attempt in a half full zone; with the buffer released the append fills the zone. -/
theorem append_reaches_zone_retry : ∃ spp ftl cmd out,
    Retried (fun _ => 0) (smallZones 4096) zeroedParams (2^14) spp (PointerInside spp)
      (appendAt 0 7).cmd cmd ftl ∧
    znsProcNvmeIoCmd (fun _ => 0) spp 0 ftl ⟨cmd, 1, 0⟩ ⟨0, 0⟩ = .ok out ∧ cmd.slba = 8 ∧
    out.ret.status = nvmeScSuccess ∧ AppliedTo ftl out (lbaToZone spp ftl.zp (appendAt 0 7).cmd.slba) := by
  have hrun : check (fun (r : SsdParams × ZnsOutcome × ZnsOutcome × ZnsFtl × ZnsOutcome) =>
      decide (lbaToZone r.1 r.2.1.ftl.zp (r.2.1.ftl.zoneDescs (zoneOf r.1 r.2.1.ftl (appendAt 0 7).cmd)).wp =
        zoneOf r.1 r.2.1.ftl (appendAt 0 7).cmd) &&
      !r.2.2.1.accepted && decide (r.2.2.1.cmd.slba = 8) &&
      !(r.2.2.2.1.zoneDescs (zoneOf r.1 r.2.2.2.1 r.2.2.1.cmd)).zrwav &&
      r.2.2.2.2.accepted && decide (r.2.2.2.2.ret.status = nvmeScSuccess)) (do
      let (spp, ftl) ← znsInitNamespace (smallZones 4096) zeroedParams (2^14)
      let out₁ ← znsProcNvmeIoCmd (fun _ => 0) spp 0 ftl (writeAtZero 7) ⟨0, 0⟩
      let out₂ ← znsProcNvmeIoCmd (fun _ => 0) spp 0 out₁.ftl (appendAt 0 7) ⟨0, 0⟩
      let ftl := out₂.ftl.setBuffer (.zone 0) (bufferRelease (out₂.ftl.buffer (.zone 0)) 4096)
      let out₃ ← znsProcNvmeIoCmd (fun _ => 0) spp 0 ftl ⟨out₂.cmd, 1, 0⟩ ⟨0, 0⟩
      return (spp, out₁, out₂, ftl, out₃)) = true := by decide +kernel
  obtain ⟨r, hr, hp⟩ := exists_of_check hrun
  obtain ⟨⟨spp, ftl⟩, hinit, hr⟩ := bind_eq_ok.mp hr
  obtain ⟨out₁, hproc₁, hr⟩ := bind_eq_ok.mp hr
  obtain ⟨out₂, hproc₂, hr⟩ := bind_eq_ok.mp hr
  obtain ⟨out₃, hproc₃, hr⟩ := bind_eq_ok.mp hr
  cases hr
  simp only [Bool.and_eq_true, decide_eq_true_eq, Bool.not_eq_true'] at hp
  obtain ⟨⟨⟨⟨⟨h₁, h₂⟩, h₃⟩, h₄⟩, h₅⟩, h₆⟩ := hp
  have h₀ : ZnsReachable (fun _ => 0) (smallZones 4096) zeroedParams (2^14) spp (fun _ _ => True) ftl :=
    .init hinit
  have hfirst : Retried (fun _ => 0) (smallZones 4096) zeroedParams (2^14) spp (PointerInside spp)
      (appendAt 0 7).cmd (appendAt 0 7).cmd out₁.ftl := .first (h₀.command trivial (by decide) hproc₁)
  have hretry := (hfirst.refused (fun _ => h₁) hproc₂ h₂).release (.zone 0) 4096
  refine ⟨spp, _, out₂.cmd, out₃, hretry, hproc₃, h₃, h₆, ?_⟩
  exact append_reaches_zone rfl (by decide) hretry (fun hz => absurd (h₄.symm.trans hz) (by decide)) hproc₃ h₅

/-- Zone 0 is full and its buffer empty: the append to it is refused once and then goes to zone 1. -/
theorem append_reaches_next_zone : ∃ spp ftl cmd out,
    Retried (fun _ => 0) (smallZones 8192) zeroedParams (2^14) spp (fun _ _ => True)
      (appendAt 0 7).cmd cmd ftl ∧
    znsProcNvmeIoCmd (fun _ => 0) spp 0 ftl ⟨cmd, 1, 0⟩ ⟨0, 0⟩ = .ok out ∧ out.accepted = true ∧
    lbaToZone spp ftl.zp (appendAt 0 7).cmd.slba = 0 ∧ out.ret.status = nvmeScSuccess ∧
    (ftl.zoneDescs 1).wp = 16 ∧ (out.ftl.zoneDescs 1).wp = 24 ∧ ¬ AppliedTo ftl out 0 := by
  have hrun : check (fun (r : SsdParams × ZnsOutcome × ZnsOutcome × ZnsOutcome) =>
      !r.2.2.1.accepted && decide (lbaToZone r.1 r.2.2.1.ftl.zp (appendAt 0 7).cmd.slba = 0) &&
      r.2.2.2.accepted && decide (r.2.2.2.ret.status = nvmeScSuccess) &&
      decide ((r.2.2.1.ftl.zoneDescs 1).wp = 16) && decide ((r.2.2.2.ftl.zoneDescs 1).wp = 24)) (do
      let (spp, ftl) ← znsInitNamespace (smallZones 8192) zeroedParams (2^14)
      let out₁ ← znsProcNvmeIoCmd (fun _ => 0) spp 0 ftl (writeAtZero 15) ⟨0, 0⟩
      let out₂ ← znsProcNvmeIoCmd (fun _ => 0) spp 0 out₁.ftl (appendAt 0 7) ⟨0, 0⟩
      let out₃ ← znsProcNvmeIoCmd (fun _ => 0) spp 0 out₂.ftl ⟨out₂.cmd, 1, 0⟩ ⟨0, 0⟩
      return (spp, out₁, out₂, out₃)) = true := by decide +kernel
  obtain ⟨r, hr, hp⟩ := exists_of_check hrun
  obtain ⟨⟨spp, ftl⟩, hinit, hr⟩ := bind_eq_ok.mp hr
  obtain ⟨out₁, hproc₁, hr⟩ := bind_eq_ok.mp hr
  obtain ⟨out₂, hproc₂, hr⟩ := bind_eq_ok.mp hr
  obtain ⟨out₃, hproc₃, hr⟩ := bind_eq_ok.mp hr
  cases hr
  simp only [Bool.and_eq_true, decide_eq_true_eq, Bool.not_eq_true'] at hp
  obtain ⟨⟨⟨⟨⟨h₁, h₂⟩, h₃⟩, h₄⟩, h₅⟩, h₆⟩ := hp
  have h₀ : ZnsReachable (fun _ => 0) (smallZones 8192) zeroedParams (2^14) spp (fun _ _ => True) ftl :=
    .init hinit
  have hfirst : Retried (fun _ => 0) (smallZones 8192) zeroedParams (2^14) spp (fun _ _ => True)
      (appendAt 0 7).cmd (appendAt 0 7).cmd out₁.ftl := .first (h₀.command trivial (by decide) hproc₁)
  refine ⟨spp, _, out₂.cmd, out₃, hfirst.refused trivial hproc₂ h₁, hproc₃, h₃, h₂, h₄, h₅, h₆, ?_⟩
  rintro (⟨_, _, hothers⟩ | ⟨hfail, _⟩)
  · have hwp := hothers 1 (by decide)
    rw [h₅, h₆] at hwp
    exact absurd hwp (by decide)
  · exact hfail h₄

end NVMeVirt
