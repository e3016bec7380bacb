import NVMeVirt.Admin
import NVMeVirt.ZoneAddresses

/-!
# What initialisation reads of the old parameters

`zns_init_namespace` has its `struct znsparams` on the stack, and four fields of the initialiser in
`zns_init_params` come from the fields that were there before. Two runs that start from different
leftovers are compared command by command.
-/

namespace NVMeVirt
set_option autoImplicit false
open Outcome

inductive ZnsEvent where
  | command (garbage : Nat) (req : ZnsRequest) (ret : NvmevResult)
  | release (ref : BufferRef) (n : Nat)
  | identify

inductive ZnsAnswer where
  | result (accepted : Bool) (ret : NvmevResult)
  | released
  | page (data : AdminPage)
  deriving DecidableEq

/-- The block count of a command has 16 bits. -/
def ZnsEvent.Wf : ZnsEvent → Prop
  | .command _ req _ => req.cmd.length < 2^16
  | .release _ _ => True
  | .identify => True

section Defs

variable (clk : Nat → Nat) (spp : SsdParams)

def ZnsEvent.step (ftl : ZnsFtl) : ZnsEvent → Except Fault (ZnsFtl × ZnsAnswer)
  | .command garbage req ret => do
    let out ← znsProcNvmeIoCmd clk spp garbage ftl req ret
    return (out.ftl, .result out.accepted out.ret)
  | .release ref n => .ok (ftl.setBuffer ref (bufferRelease (ftl.buffer ref) n), .released)
  | .identify => .ok (ftl, .page (idZnsNs ftl.zp))

def runEvents : ZnsFtl → List ZnsEvent → List ZnsAnswer × Except Fault ZnsFtl
  | ftl, [] => ([], .ok ftl)
  | ftl, e :: es =>
    match e.step clk spp ftl with
    | .error fault => ([], .error fault)
    | .ok (ftl, a) =>
      let rest := runEvents ftl es
      (a :: rest.1, rest.2)

end Defs

/-- `mar` and `mor`. -/
def AdminPage.zoneLimits : AdminPage → Option (Nat × Nat)
  | .idZnsNs mar mor _ _ _ _ _ _ => some (mar, mor)
  | _ => none

/-- The advertised limits are the numbers of zones that the namespace lets be active and open, less one
as both fields count from 0. -/
structure LimitsMatch (ftl : ZnsFtl) : Prop where
  advertised : (idZnsNs ftl.zp).zoneLimits =
    some (u32 (ftl.zp.nrZones + (2^32 - 1)), u32 (ftl.zp.nrZones + (2^32 - 1)))
  enforced : ∀ t, (ftl.resInfos t).totalCnt = ftl.zp.nrZones

/-- Two initialisations that cannot be told apart, with limits that match the enforced ones in every state
of a run. -/
structure InitIndependent (clk : Nat → Nat) (spp : SsdParams) (ftl ftl' : ZnsFtl) : Prop where
  params : ftl'.zp = ftl.zp
  answers : ∀ es, (runEvents clk spp ftl' es).1 = (runEvents clk spp ftl es).1
  limits : ∀ es s, (∀ e ∈ es, e.Wf) → (runEvents clk spp ftl es).2 = .ok s → LimitsMatch s
  limits' : ∀ es s, (∀ e ∈ es, e.Wf) → (runEvents clk spp ftl' es).2 = .ok s → LimitsMatch s

variable {clk : Nat → Nat} {cfg : ZnsConfig} {spp spp' : SsdParams} {old old' zp : ZnsParams}
  {size leak : Nat} {ftl ftl' : ZnsFtl}

/-- The parameters of a configuration, with the fields that come from the old contents. -/
def ZnsParams.refill (secsz : Nat) (old zp : ZnsParams) : ZnsParams :=
  { zp with
    nrActiveZones := old.nrZones
    nrOpenZones := old.nrZones
    lbasPerZrwa := old.zrwaSize / secsz
    lbasPerZrwafg := old.zrwafgSize / secsz }

theorem ZnsParams.refill_eq_iff (secsz : Nat) (old old' zp : ZnsParams) :
    ZnsParams.refill secsz old' zp = ZnsParams.refill secsz old zp ↔ old'.nrZones = old.nrZones ∧
      old'.zrwaSize / secsz = old.zrwaSize / secsz ∧ old'.zrwafgSize / secsz = old.zrwafgSize / secsz := by
  constructor
  · intro h
    exact ⟨congrArg ZnsParams.nrActiveZones h, congrArg ZnsParams.lbasPerZrwa h,
      congrArg ZnsParams.lbasPerZrwafg h⟩
  · rintro ⟨h₁, h₂, h₃⟩
    unfold ZnsParams.refill
    rw [h₁, h₂, h₃]

/-- Whether the parameters pass the assertions does not depend on the old contents. -/
theorem znsInitParams_refill (cfg : ZnsConfig) (spp : SsdParams) (old old' : ZnsParams) (capacity : Nat) :
    znsInitParams cfg spp old' capacity =
      (znsInitParams cfg spp old capacity).map (ZnsParams.refill spp.secsz old') := by
  unfold znsInitParams
  cases divisor cfg.zoneSize with
  | error e => rfl
  | ok zoneSize =>
    rw [ok_bind, ok_bind]
    dsimp only
    cases divisor (u32 zoneSize) with
    | error e => rfl
    | ok zoneBytes =>
      rw [ok_bind, ok_bind]
      cases nvmevAssert (capacity % zoneBytes = 0) with
      | error e => rfl
      | ok u =>
        rw [ok_bind, ok_bind]
        cases nvmevAssert (u32 zoneSize % spp.pgsz = 0) with
        | error e => rfl
        | ok u => rfl

theorem znsInitNamespace_refill (old' : ZnsParams) (h : znsInitNamespace cfg old size = .ok (spp, ftl)) :
    ftl.zp = ZnsParams.refill lbaSize old ftl.zp ∧
      znsInitNamespace cfg old' size = .ok (spp, znsInitFtl spp (ZnsParams.refill lbaSize old' ftl.zp)) := by
  unfold znsInitNamespace at h ⊢
  obtain ⟨_, hspp, h⟩ := bind_eq_ok.mp h
  obtain ⟨zp, hzp, h⟩ := bind_eq_ok.mp h
  cases h
  have hsecsz := (ssdInitParams_checked hspp).paged.secsz
  have hself := hzp
  rw [znsInitParams_refill cfg spp old old, hzp, hsecsz] at hself
  have hother := znsInitParams_refill cfg spp old old' size
  rw [hzp, hsecsz] at hother
  refine ⟨(Except.ok.inj hself).symm, ?_⟩
  rw [hspp, ok_bind, hother]
  rfl

theorem ZnsEvent.step_kept {e : ZnsEvent} {a : ZnsAnswer} (k : ZnsOk spp ftl leak) (hwf : e.Wf)
    (h : e.step clk spp ftl = .ok (ftl', a)) : ftl'.zp = ftl.zp ∧ ∃ leak, ZnsOk spp ftl' leak := by
  cases e with
  | command garbage req ret =>
    obtain ⟨out, hout, h⟩ := bind_eq_ok.mp h
    cases h
    have kept := znsProcNvmeIoCmd_kept k hwf hout
    exact ⟨kept.zp, kept.some⟩
  | release ref n =>
    cases h
    exact ⟨ZnsFtl.setBuffer_zp _ _ _, leak, k.setBuffer _ _⟩
  | identify =>
    cases h
    exact ⟨rfl, leak, k⟩

theorem runEvents_kept {es : List ZnsEvent} {s : ZnsFtl} (k : ZnsOk spp ftl leak) (hwf : ∀ e ∈ es, e.Wf)
    (h : (runEvents clk spp ftl es).2 = .ok s) : s.zp = ftl.zp ∧ ∃ leak, ZnsOk spp s leak := by
  induction es generalizing ftl leak with
  | nil =>
    cases h
    exact ⟨rfl, leak, k⟩
  | cons e es ih =>
    rw [runEvents] at h
    split at h
    · cases h
    · rename_i m a hstep
      obtain ⟨hzp, leak', k'⟩ := e.step_kept k (hwf e List.mem_cons_self) hstep
      obtain ⟨hrest, hok⟩ := ih k' (fun e he => hwf e (List.mem_cons_of_mem _ he)) h
      exact ⟨hrest.trans hzp, hok⟩

theorem u32_pred_inj {a b : Nat} (ha : a < 2^32) (hb : b < 2^32)
    (h : u32 (a + (2^32 - 1)) = u32 (b + (2^32 - 1))) : a = b := by
  unfold u32 at h
  omega

theorem zoneLimits_idZnsNs (zp : ZnsParams) : (idZnsNs zp).zoneLimits =
    some (u32 (zp.nrActiveZones + (2^32 - 1)), u32 (zp.nrOpenZones + (2^32 - 1))) := rfl

theorem znsInitNamespace_limits (h : znsInitNamespace cfg old size = .ok (spp, ftl)) :
    ftl.zp.nrActiveZones = old.nrZones ∧ ftl.zp.nrOpenZones = old.nrZones := by
  have hfields := (znsInitNamespace_refill old h).1
  exact ⟨congrArg ZnsParams.nrActiveZones hfields, congrArg ZnsParams.nrOpenZones hfields⟩

theorem limitsMatch_run (hinit : znsInitNamespace cfg old size = .ok (spp, ftl))
    (hold : old.nrZones = ftl.zp.nrZones) {es : List ZnsEvent} {s : ZnsFtl} (hwf : ∀ e ∈ es, e.Wf)
    (h : (runEvents clk spp ftl es).2 = .ok s) : LimitsMatch s := by
  obtain ⟨hzp, leak, k⟩ := runEvents_kept (znsInitNamespace_ok hinit).2.1 hwf h
  obtain ⟨hactive, hopen⟩ := znsInitNamespace_limits hinit
  refine ⟨?_, k.ledger.total⟩
  rw [hzp, zoneLimits_idZnsNs, hactive, hopen, hold]

theorem LimitsMatch.nrZones (k : LimitsMatch ftl) (hinit : znsInitNamespace cfg old size = .ok (spp, ftl))
    (hold : old.nrZones < 2^32) : old.nrZones = ftl.zp.nrZones := by
  have hadv := k.advertised
  rw [zoneLimits_idZnsNs, (znsInitNamespace_limits hinit).1] at hadv
  exact u32_pred_inj hold (znsInitNamespace_ok hinit).2.1.zoned.zones_lt
    (Prod.mk.inj (Option.some.inj hadv)).1

theorem znsInitNamespace_nrZones (h : znsInitNamespace cfg old size = .ok (spp, ftl)) :
    ftl.zp.nrZones = u32 (size / cfg.zoneSize) := by
  unfold znsInitNamespace at h
  obtain ⟨_, _, h⟩ := bind_eq_ok.mp h
  obtain ⟨zp, hzp, h⟩ := bind_eq_ok.mp h
  cases h
  unfold znsInitParams at hzp
  obtain ⟨_, hzp⟩ := divisor_bind_ok.mp hzp
  obtain ⟨_, hzp⟩ := divisor_bind_ok.mp hzp
  obtain ⟨_, hzp⟩ := nvmevAssert_bind_ok.mp hzp
  obtain ⟨_, hzp⟩ := nvmevAssert_bind_ok.mp hzp
  cases hzp
  rfl

/-- Two initialisations are the same, in their parameters, their answers and their limits, exactly when both
found the new number of zones in the old contents, and random write areas of as many blocks. -/
theorem init_independent_iff (h : znsInitNamespace cfg old size = .ok (spp, ftl))
    (h' : znsInitNamespace cfg old' size = .ok (spp, ftl')) (hold : old.nrZones < 2^32)
    (hold' : old'.nrZones < 2^32) : InitIndependent clk spp ftl ftl' ↔
      old.nrZones = u32 (size / cfg.zoneSize) ∧ old'.nrZones = u32 (size / cfg.zoneSize) ∧
        old'.zrwaSize / lbaSize = old.zrwaSize / lbaSize ∧
        old'.zrwafgSize / lbaSize = old.zrwafgSize / lbaSize := by
  obtain ⟨hzp, hother⟩ := znsInitNamespace_refill old' h
  have hftl' : ftl' = znsInitFtl spp (ZnsParams.refill lbaSize old' ftl.zp) :=
    congrArg Prod.snd (Except.ok.inj (h'.symm.trans hother))
  have hparams : ftl'.zp = ftl.zp ↔ old'.nrZones = old.nrZones ∧
      old'.zrwaSize / lbaSize = old.zrwaSize / lbaSize ∧
      old'.zrwafgSize / lbaSize = old.zrwafgSize / lbaSize := by
    rw [← ZnsParams.refill_eq_iff lbaSize old old' ftl.zp, ← hzp, hftl']
    exact Iff.rfl
  have hzones := znsInitNamespace_nrZones h
  have hzones' := znsInitNamespace_nrZones h'
  constructor
  · intro k
    have hlimits : LimitsMatch ftl := k.limits [] ftl (fun e he => absurd he List.not_mem_nil) rfl
    have hlimits' : LimitsMatch ftl' := k.limits' [] ftl' (fun e he => absurd he List.not_mem_nil) rfl
    exact ⟨(hlimits.nrZones h hold).trans hzones, (hlimits'.nrZones h' hold').trans hzones',
      (hparams.mp k.params).2⟩
  · rintro ⟨hn, hn', hzrwa⟩
    have hsame : ftl'.zp = ftl.zp := hparams.mpr ⟨hn'.trans hn.symm, hzrwa⟩
    have hstate : ftl' = ftl := by
      obtain ⟨-, hself⟩ := znsInitNamespace_refill old h
      rw [← hzp] at hself
      have hftl : ftl = znsInitFtl spp ftl.zp := congrArg Prod.snd (Except.ok.inj (h.symm.trans hself))
      rw [hftl, hftl', ← hsame, hftl']
      rfl
    refine ⟨hsame, fun es => by rw [hstate], fun es s hwf hrun => ?_, fun es s hwf hrun => ?_⟩
    · exact limitsMatch_run h (hn.trans hzones.symm) hwf hrun
    · exact limitsMatch_run h' (hn'.trans hzones'.symm) hwf hrun

/-- A stack that holds the number of zones of a namespace of 4 GiB from before. -/
def staleParams (diesPerZone : Nat) : ZnsParams :=
    { zeroedParams with nrZones := 2, diesPerZone := diesPerZone }

theorem init_independent_stale : ∃ spp ftl ftl', znsInitNamespace wdZn540 (staleParams 0) (2^32) =
    .ok (spp, ftl) ∧
    znsInitNamespace wdZn540 (staleParams 7) (2^32) = .ok (spp, ftl') ∧
    InitIndependent (fun _ => 0) spp ftl ftl' := by
  obtain ⟨spp, ftl, h⟩ : ∃ spp ftl, znsInitNamespace wdZn540 (staleParams 0) (2^32) = .ok (spp, ftl) :=
    ⟨_, _, rfl⟩
  have h' := (znsInitNamespace_refill (staleParams 7) h).2
  exact ⟨spp, ftl, _, h, h', (init_independent_iff h h' (by decide) (by decide)).mpr (by decide)⟩

/-- A stack of zeros makes the namespace advertise `2^32` active zones, one that holds 2 there the 2 that it
has. -/
theorem init_depends_on_stack : ∃ spp ftl ftl',
    znsInitNamespace wdZn540 zeroedParams (2^32) = .ok (spp, ftl) ∧
    znsInitNamespace wdZn540 (staleParams 0) (2^32) = .ok (spp, ftl') ∧ ftl.zp.nrZones = 2 ∧
    (idZnsNs ftl.zp).zoneLimits = some (2^32 - 1, 2^32 - 1) ∧ (idZnsNs ftl'.zp).zoneLimits = some (1, 1) ∧
    ¬ InitIndependent (fun _ => 0) spp ftl ftl' := by
  refine ⟨_, _, _, rfl, rfl, rfl, rfl, rfl, fun k => ?_⟩
  exact absurd (congrArg ZnsParams.nrActiveZones k.params) (by decide)

end NVMeVirt
