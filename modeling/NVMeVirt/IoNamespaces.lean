import NVMeVirt.ZnsCopy

/-!
# Namespaces in the storage area

`NVMEV_NAMESPACE_INIT` lays the namespaces end to end in the storage area; a conventional one
advertises less than it takes up. Each handler checks something else before it accepts a
command, and the transfer uses the LBA of the submission entry.
-/

namespace NVMeVirt
set_option autoImplicit false
open Outcome Ranges Gather

inductive NsType where
  | nvm
  | conv
  | zns
  deriving Repr, DecidableEq

/-- `NS_SSD_TYPE(i)` and `NS_CAPACITY(i)`. -/
structure NsSpec where
  type : NsType
  capacity : Nat
  deriving Repr, DecidableEq

/-- The macros of a build, the module parameters, and what memory the initialisation finds. -/
structure NsBuild where
  ssd : SsdConfig
  zns : ZnsConfig
  ioUnits : IoUnitConfig
  mem : Nat → Leftover
  old : ZnsParams

inductive NsFtl where
  | simple (ioUnitStat : Nat → Nat)
  | conv (spp : SsdParams) (ns : ConvNs)
  | zns (spp : SsdParams) (ftl : ZnsFtl)

/-- `mapped` counts from the start of the storage area. -/
structure NvmevNs where
  mapped : Nat
  size : Nat
  ftl : NsFtl

def initNamespace (b : NsBuild) (type : NsType) (size mapped : Nat) : Except Fault NvmevNs :=
  match type with
  | .nvm => .ok ⟨mapped, size, .simple fun _ => 0⟩
  | .conv => do
    let (spp, ns) ← convInitNamespace b.ssd b.mem size
    return ⟨mapped, ns.size, .conv spp ns⟩
  | .zns => do
    let (spp, ftl) ← znsInitNamespace b.zns b.old size
    return ⟨mapped, size, .zns spp ftl⟩

/-- The loop of `NVMEV_NAMESPACE_INIT`. -/
def namespaceInit (b : NsBuild) : List NsSpec → Nat → Nat → Except Fault (List NvmevNs)
  | [], _, _ => .ok []
  | spec :: specs, remainingCapacity, nsAddr => do
    let size := if spec.capacity = 0 then remainingCapacity else min spec.capacity remainingCapacity
    let ns ← initNamespace b spec.type size nsAddr
    let rest ← namespaceInit b specs (remainingCapacity - size) (nsAddr + size)
    return ns :: rest

def convOpcodeOf (opcode : Nat) : NvmeOpcode :=
  if opcode = nvmeCmdWrite then .write
  else if opcode = nvmeCmdRead then .read
  else if opcode = nvmeCmdFlush then .flush
  else if opcode = 0xff then .printCmt
  else .other

def convRwCommand (rw : NvmeRwCommand) : NvmeCommand where
  opcode := convOpcodeOf rw.opcode
  slba := rw.slba
  length := rw.length
  fua := rw.control / 2^14 % 2 = 1

/-- `fuel` bounds the GC loop, `garbage` is an uninitialised status, `now` a clock reading and
`addr` has the addresses of the buffers. -/
structure HandlerEnv where
  clk : Nat → Nat
  fuel : Nat
  garbage : Nat
  now : Nat
  addr : BufferRef → Nat

def nsProcIoCmd (b : NsBuild) (env : HandlerEnv) : ProcIoCmd NsFtl := fun i ftl cmd sqid wall ret =>
  match ftl with
  | .simple stat => do
    let o ← simpleProcNvmeIoCmd b.ioUnits env.now i stat cmd sqid wall ret
    return ⟨o.accepted, .simple o.ftl, o.cmd, o.ret, o.calls⟩
  | .conv spp ns => do
    let o ← convProcNvmeIoCmd env.clk spp (convInitParams b.ssd) env.fuel ns
      ⟨convRwCommand cmd, sqid, wall⟩ ret
    return ⟨o.accepted, .conv spp o.ns, cmd, o.ret,
      o.ops.map fun op => ⟨op.nsecsTarget, env.addr .shared, op.buffsToRelease⟩⟩
  | .zns spp ftl => do
    let o ← znsProcIoCmd env.clk spp env.garbage env.addr i ftl cmd sqid wall ret
    return ⟨o.accepted, .zns spp o.ftl, o.cmd, o.ret, o.calls⟩

theorem nsProcIoCmd_length {b : NsBuild} {env : HandlerEnv} {i sqid wall : Nat} {ftl : NsFtl}
    {cmd : NvmeRwCommand} {ret : NvmevResult} {o : HandlerOutcome NsFtl}
    (h : nsProcIoCmd b env i ftl cmd sqid wall ret = .ok o) : o.cmd.length = cmd.length := by
  unfold nsProcIoCmd at h
  cases ftl with
  | simple stat =>
    obtain ⟨o', ho', h⟩ := bind_eq_ok.mp h
    cases h
    rw [(simpleProcNvmeIoCmd_accepts ho').2.1]
  | conv spp ns =>
    obtain ⟨o', _, h⟩ := bind_eq_ok.mp h
    cases h
    rfl
  | zns spp zns =>
    obtain ⟨o', ho', h⟩ := bind_eq_ok.mp h
    obtain ⟨out, _, ho'⟩ := bind_eq_ok.mp ho'
    cases ho'
    cases h
    rfl

theorem convNsSize_le (cfg : SsdConfig) (size : Nat) : convNsSize (convInitParams cfg) size ≤ size := by
  have hpct : 100 ≤ (convInitParams cfg).pbaPcent := Nat.le_add_right _ _
  calc u64 (size * 100) / (convInitParams cfg).pbaPcent ≤ size * 100 / (convInitParams cfg).pbaPcent :=
        Nat.div_le_div_right (Nat.mod_le _ _)
    _ ≤ size * 100 / 100 := Nat.div_le_div_left hpct (by decide)
    _ = size := Nat.mul_div_cancel _ (by decide)

theorem initNamespace_region {b : NsBuild} {type : NsType} {size mapped : Nat} {ns : NvmevNs}
    (h : initNamespace b type size mapped = .ok ns) : ns.mapped = mapped ∧ ns.size ≤ size := by
  cases type with
  | nvm =>
    cases h
    exact ⟨rfl, Nat.le_refl _⟩
  | conv =>
    obtain ⟨⟨spp, ns'⟩, hinit, h⟩ := bind_eq_ok.mp h
    cases h
    refine ⟨rfl, ?_⟩
    unfold convInitNamespace at hinit
    obtain ⟨_, _, hinit⟩ := bind_eq_ok.mp hinit
    obtain ⟨_, _, hinit⟩ := bind_eq_ok.mp hinit
    cases hinit
    exact convNsSize_le b.ssd size
  | zns =>
    obtain ⟨⟨spp, ftl⟩, _, h⟩ := bind_eq_ok.mp h
    cases h
    exact ⟨rfl, Nat.le_refl _⟩

/-- Every namespace lies in the part of the storage area that was left for it. -/
theorem namespaceInit_region {b : NsBuild} {specs : List NsSpec} {remaining addr : Nat}
    {nss : List NvmevNs} (h : namespaceInit b specs remaining addr = .ok nss) {ns : NvmevNs} (hns : ns ∈ nss) :
    addr ≤ ns.mapped ∧ ns.mapped + ns.size ≤ addr + remaining := by
  induction specs generalizing remaining addr nss with
  | nil =>
    cases h
    exact absurd hns List.not_mem_nil
  | cons spec specs ih =>
    rw [namespaceInit] at h
    obtain ⟨size, hsize⟩ : ∃ size, size = if spec.capacity = 0 then remaining else
      min spec.capacity remaining := ⟨_, rfl⟩
    rw [← hsize] at h
    have hle : size ≤ remaining := by
      rw [hsize]
      split <;> omega
    obtain ⟨first, hfirst, h⟩ := bind_eq_ok.mp h
    obtain ⟨rest, hrest, h⟩ := bind_eq_ok.mp h
    cases h
    rcases List.mem_cons.mp hns with rfl | hns
    · obtain ⟨h₁, h₂⟩ := initNamespace_region hfirst
      omega
    · have := ih hrest hns
      omega

theorem namespaceInit_disjoint {b : NsBuild} {specs : List NsSpec} {remaining addr : Nat}
    {nss : List NvmevNs} (h : namespaceInit b specs remaining addr = .ok nss) :
    nss.Pairwise (fun a b => a.mapped + a.size ≤ b.mapped) := by
  induction specs generalizing remaining addr nss with
  | nil =>
    cases h
    exact List.Pairwise.nil
  | cons spec specs ih =>
    rw [namespaceInit] at h
    obtain ⟨first, hfirst, h⟩ := bind_eq_ok.mp h
    obtain ⟨rest, hrest, h⟩ := bind_eq_ok.mp h
    cases h
    refine List.Pairwise.cons ?_ (ih hrest)
    intro ns hns
    obtain ⟨h₁, h₂⟩ := initNamespace_region hfirst
    have := (namespaceInit_region hrest hns).1
    omega

/-- The copies of a command stay in the namespace `ns`, number `i`, and its addresses do not wrap. -/
structure Isolated (nss : List NvmevNs) (i : Nat) (ns : NvmevNs) (cmd : NvmeRwCommand)
    (accesses : List (Nat × Nat)) : Prop where
  inside : ∀ a < 2^64, Reaches accesses a → ns.mapped ≤ a ∧ a < ns.mapped + ns.size
  others : ∀ j ns', j ≠ i → nss[j]? = some ns' → ∀ a < 2^64, Reaches accesses a →
    ¬ (ns'.mapped ≤ a ∧ a < ns'.mapped + ns'.size)
  exact : cmd.slba * lbaSize + cmdIoSize cmd ≤ 2^64

/-- The LBA range of the command ends within the advertised size. The DMA engine works on the
range as if the namespace were the first one. -/
def InNamespace (ioUsingDma : Bool) (ns : NvmevNs) (cmd : NvmeRwCommand) : Prop :=
  if ioUsingDma then
    ns.mapped ≤ cmd.slba * lbaSize ∧ cmd.slba * lbaSize + cmdIoSize cmd ≤ ns.mapped + ns.size
  else cmd.slba * lbaSize + cmdIoSize cmd ≤ ns.size

theorem others_outside {nss : List NvmevNs} {i j : Nat} {ns ns' : NvmevNs}
    (h : nss.Pairwise (fun a b => a.mapped + a.size ≤ b.mapped)) (hi : nss[i]? = some ns)
    (hj : nss[j]? = some ns') (hne : j ≠ i) {a : Nat} (ha : ns.mapped ≤ a ∧ a < ns.mapped + ns.size) :
    ¬ (ns'.mapped ≤ a ∧ a < ns'.mapped + ns'.size) := by
  obtain ⟨hil, rfl⟩ := List.getElem?_eq_some_iff.mp hi
  obtain ⟨hjl, rfl⟩ := List.getElem?_eq_some_iff.mp hj
  have hp := List.pairwise_iff_getElem.mp h
  rcases Nat.lt_or_gt_of_ne hne with hlt | hgt
  · have := hp j i hjl hil hlt
    omega
  · have := hp i j hil hjl hgt
    omega

/-- The region that a run of bytes without a wrap lies in. -/
theorem run_inside_iff {mapped size start n : Nat} (hn : 0 < n) (hstart : start + n ≤ 2^64) :
    (∀ a < 2^64, behind start a < n → mapped ≤ a ∧ a < mapped + size) ↔
      mapped ≤ start ∧ start + n ≤ mapped + size := by
  constructor
  · intro h
    have h₁ := h start (by omega) (by unfold behind u64; omega)
    have h₂ := h (start + n - 1) (by omega) (by unfold behind u64; omega)
    omega
  · intro h a ha hb
    unfold behind u64 at hb
    omega

theorem isolated_iff {b : NsBuild} {specs : List NsSpec} {storageSize i : Nat} {nss : List NvmevNs}
    {ns : NvmevNs} {cmd : NvmeRwCommand} {ioUsingDma : Bool} {mapped : Nat → Option Nat} {mem : Memory}
    {accesses : List (Nat × Nat)} (hinit : namespaceInit b specs storageSize 0 = .ok nss)
    (hstore : storageSize ≤ 2^64) (hns : nss[i]? = some ns) (hlen : cmd.length < 2^16)
    (hmap : mapped (u32 (cmd.nsid + (2^32 - 1))) = some ns.mapped)
    (hio : storageAccesses ioUsingDma mapped cmd mem = .ok accesses) :
    Isolated nss i ns cmd accesses ↔ InNamespace ioUsingDma ns cmd := by
  obtain ⟨start, hstart, hreach⟩ := storageAccesses_reaches hlen hio
  have hregion := namespaceInit_region hinit (List.mem_of_getElem? hns)
  have hpos : 0 < cmdIoSize cmd := by
    unfold cmdIoSize lbaSize lbaBits
    omega
  -- without a wrap the transfer starts where its LBA says
  have hoff : cmd.slba * lbaSize + cmdIoSize cmd ≤ 2^64 → cmdIoOffset cmd = cmd.slba * lbaSize :=
    fun h => u64_eq (by omega)
  have hinside : cmd.slba * lbaSize + cmdIoSize cmd ≤ 2^64 →
      ((∀ a < 2^64, Reaches accesses a → ns.mapped ≤ a ∧ a < ns.mapped + ns.size) ↔
        InNamespace ioUsingDma ns cmd) := by
    intro hexact
    simp only [hreach]
    unfold transferStart at hstart
    unfold InNamespace
    cases ioUsingDma with
    | true =>
      obtain rfl : cmdIoOffset cmd = start := by simpa using hstart
      rw [hoff hexact, run_inside_iff hpos hexact]
      simp
    | false =>
      rw [if_neg (by decide), hmap, Option.map_some, Option.some.injEq, hoff hexact] at hstart
      subst hstart
      rw [if_neg (by decide)]
      by_cases hfit : ns.mapped + cmd.slba * lbaSize + cmdIoSize cmd ≤ 2^64
      · rw [run_inside_iff hpos hfit]
        omega
      · constructor
        · intro h
          -- the first byte after the wrap is below the namespace
          have hlast := h (u64 (ns.mapped + cmd.slba * lbaSize + (cmdIoSize cmd - 1)))
            (Nat.mod_lt _ (by decide)) (by unfold behind u64; omega)
          unfold u64 at hlast
          omega
        · intro h
          omega
  constructor
  · intro h
    exact (hinside h.exact).mp h.inside
  · intro h
    have hexact : cmd.slba * lbaSize + cmdIoSize cmd ≤ 2^64 := by
      unfold InNamespace at h
      split at h <;> omega
    have hin := (hinside hexact).mpr h
    exact ⟨hin, fun j ns' hne hj a ha hr =>
      others_outside (namespaceInit_disjoint hinit) hns hj hne (hin a ha hr), hexact⟩

section Zns

variable {clk : Nat → Nat} {spp : SsdParams} {ftl : ZnsFtl} {leak garbage : Nat} {req : ZnsRequest}
  {ret : NvmevResult} {out : ZnsOutcome}

theorem znsRead_admitted (k : ZnsOk spp ftl leak) (h : znsRead clk spp ftl req = .ok out)
    (hst : out.ret.status = nvmeScSuccess) :
    lbaToZone spp ftl.zp req.cmd.slba < ftl.zp.nrZones ∧
      checkBoundaryError spp ftl.zp req.cmd.slba (nrLbasFromRwCmd req.cmd) = true := by
  unfold znsRead at h
  simp only [pure_eq_ok, k.zoned.lpnToZone_eq] at h
  split at h
  · cases h
  rename_i hz
  obtain ⟨_, _, h⟩ := bind_eq_ok.mp h
  obtain ⟨_, _, h⟩ := bind_eq_ok.mp h
  cases h
  refine ⟨Nat.lt_of_not_le hz, ?_⟩
  by_contra hb
  rw [Bool.not_eq_true] at hb
  simp only [hb, if_true] at hst
  split at hst <;> exact absurd hst (by decide)

/-- A read whose zone number fits 32 bits ends in the zone that it starts in. -/
theorem read_inside (g : Addressable spp ftl.zp) (hlen : req.cmd.length < 2^16)
    (hzone : req.cmd.slba / lbasPerZone ftl.zp < 2^32)
    (hz : lbaToZone spp ftl.zp req.cmd.slba < ftl.zp.nrZones)
    (hb : checkBoundaryError spp ftl.zp req.cmd.slba (nrLbasFromRwCmd req.cmd) = true) :
    req.cmd.slba + nrLbasFromRwCmd req.cmd ≤ ftl.zp.nrZones * lbasPerZone ftl.zp := by
  have hpos := g.lbas_pos
  have hn : nrLbasFromRwCmd req.cmd = req.cmd.length + 1 := rfl
  have hfirst : lbaToZone spp ftl.zp req.cmd.slba = req.cmd.slba / lbasPerZone ftl.zp := by
    unfold lbaToZone
    rw [g.secsz]
    exact Nat.mod_eq_of_lt hzone
  rw [hfirst] at hz
  have hslba : req.cmd.slba < 2^32 := by
    have hlt := Nat.lt_mul_of_div_lt hz hpos
    exact Nat.lt_trans hlt g.small
  have hlast : u64 (req.cmd.slba + nrLbasFromRwCmd req.cmd + (2^64 - 1)) =
      req.cmd.slba + req.cmd.length := by
    unfold u64
    omega
  have hnear : (req.cmd.slba + req.cmd.length) / lbasPerZone ftl.zp ≤
      req.cmd.slba / lbasPerZone ftl.zp + 2^16 := by
    rw [← Nat.add_mul_div_left req.cmd.slba (2^16) hpos]
    exact Nat.div_le_div_right (by omega)
  simp only [checkBoundaryError, decide_eq_true_eq, hlast, hfirst] at hb
  have hsame : (req.cmd.slba + req.cmd.length) / lbasPerZone ftl.zp =
      req.cmd.slba / lbasPerZone ftl.zp := by
    unfold lbaToZone at hb
    rw [g.secsz] at hb
    change _ = u32 ((req.cmd.slba + req.cmd.length) / lbasPerZone ftl.zp) at hb
    have hle : req.cmd.slba / lbasPerZone ftl.zp ≤ (req.cmd.slba + req.cmd.length) / lbasPerZone ftl.zp :=
      Nat.div_le_div_right (Nat.le_add_right _ _)
    unfold u32 at hb
    omega
  have hend := (g.in_zone hsame).2
  have hzones := Nat.mul_le_mul_right (lbasPerZone ftl.zp) (Nat.succ_le_of_lt hz)
  rw [Nat.succ_mul] at hzones
  omega

/-- In a namespace of 32-bit LBAs a successful write stays inside, and so does a read whose zone
number fits 32 bits. -/
theorem zns_inside_iff {cfg : ZnsConfig} {old : ZnsParams} {size : Nat} (hsmall : size / lbaSize < 2^32)
    (hr : ZnsReachable clk cfg old size spp (fun _ cmd => ¬ AsksZrwa cmd) ftl)
    (hrw : IsWrite req.cmd ∨ req.cmd.opcode = .read) (hlen : req.cmd.length < 2^16)
    (h : znsProcNvmeIoCmd clk spp garbage ftl req ret = .ok out) (hacc : out.accepted = true)
    (hst : out.ret.status = nvmeScSuccess) :
    (out.cmd.slba + nrLbasFromRwCmd req.cmd) * lbaSize ≤ size ↔
      (req.cmd.opcode = .read → req.cmd.slba / lbasPerZone ftl.zp < 2^32) := by
  obtain ⟨leak, k⟩ := hr.ok
  have p := hr.pointers hsmall
  have hfits : ∀ lba, lba ≤ ftl.zp.nrZones * lbasPerZone ftl.zp → lba * lbaSize ≤ size :=
    fun _ => hr.lba_fits
  rcases hrw with hw | hread
  · have hplain := hr.plain (fun _ _ ha => ha)
    obtain ⟨hz, hslba, wr⟩ := succeeds_written k hplain hlen h ⟨hw, hacc, hst⟩
    have hin := wr.inside p hlen hz (hplain _)
    have hlast := Nat.mul_le_mul_right (lbasPerZone ftl.zp) (Nat.succ_le_of_lt hz)
    rw [p.zoneEnd_eq hz] at hin
    rw [Nat.succ_mul] at hlast
    refine ⟨fun _ hop => ?_, fun _ => hfits _ (by rw [hslba]; omega)⟩
    rcases hw with hw | hw <;> rw [hw] at hop <;> cases hop
  · have hcmd : out.cmd = req.cmd := not_write_cmd (by simp [IsWrite, hread]) h
    unfold znsProcNvmeIoCmd at h
    rw [hread] at h
    obtain ⟨hz, hb⟩ := znsRead_admitted k h hst
    rw [hcmd]
    constructor
    · intro hle _
      have hlba : req.cmd.slba ≤ size / lbaSize := by
        apply (Nat.le_div_iff_mul_le (by decide)).mpr
        exact Nat.le_trans (Nat.mul_le_mul_right _ (Nat.le_add_right _ _)) hle
      exact Nat.lt_of_le_of_lt (Nat.div_le_self _ _) (Nat.lt_of_le_of_lt hlba hsmall)
    · intro hzone
      apply hfits
      exact read_inside p.addressable hlen (hzone hread) hz hb

end Zns

/-- The copies of an accepted command stay in its namespace exactly when its LBA range, taken at
the place where the copy path puts it, ends within the advertised size. The zoned handlers
let through what does not only among the reads. -/
theorem namespace_isolation {b : NsBuild} {env : HandlerEnv} {specs : List NsSpec} {storageSize i : Nat}
    {nss : List NvmevNs} {ns : NvmevNs} {ftl : NsFtl} {cmd : NvmeRwCommand} {sqid wall : Nat}
    {ret : NvmevResult} {o : HandlerOutcome NsFtl} {ioUsingDma : Bool} {mapped : Nat → Option Nat}
    {mem : Memory} {accesses : List (Nat × Nat)}
    (hinit : namespaceInit b specs storageSize 0 = .ok nss) (hstore : storageSize ≤ 2^64)
    (hns : nss[i]? = some ns) (hrw : WritesData cmd ∨ cmd.opcode = nvmeCmdRead)
    (hlen : cmd.length < 2^16) (h : nsProcIoCmd b env i ftl cmd sqid wall ret = .ok o)
    (hacc : o.accepted = true) (hst : o.ret.status = nvmeScSuccess)
    (hmap : mapped (u32 (o.cmd.nsid + (2^32 - 1))) = some ns.mapped)
    (hio : storageAccesses ioUsingDma mapped o.cmd mem = .ok accesses) :
    (Isolated nss i ns o.cmd accesses ↔ InNamespace ioUsingDma ns o.cmd) ∧
    ∀ spp zns, ftl = .zns spp zns →
      ZnsReachable env.clk b.zns b.old ns.size spp (fun _ cmd => ¬ AsksZrwa cmd) zns →
      ns.size / lbaSize < 2^32 →
      (InNamespace false ns o.cmd ↔
        (cmd.opcode = nvmeCmdRead → cmd.slba / lbasPerZone zns.zp < 2^32)) := by
  have hlength : o.cmd.length = cmd.length := nsProcIoCmd_length h
  refine ⟨isolated_iff hinit hstore hns (by rwa [hlength]) hmap hio, ?_⟩
  intro spp zns hftl hr hsmall
  subst hftl
  obtain ⟨o', ho', h⟩ := bind_eq_ok.mp h
  obtain ⟨out, hout, ho'⟩ := bind_eq_ok.mp ho'
  cases ho'
  cases h
  have hwrite : IsWrite (znsRwCommand cmd) ↔ WritesData cmd :=
    (show Carries cmd (znsRwCommand cmd) from ⟨rfl, rfl, rfl⟩).writesData.symm
  have hread : (znsRwCommand cmd).opcode = .read ↔ cmd.opcode = nvmeCmdRead := znsOpcodeOf_read
  have hiff := zns_inside_iff hsmall hr (by rwa [hwrite, hread]) hlen hout hacc hst
  rw [hread, Nat.add_mul] at hiff
  exact hiff

/-- A build with both kinds of SSD parameters set to those of the zoned one. -/
def znsBuild : NsBuild where
  ssd := wdZn540.toSsdConfig
  zns := wdZn540
  ioUnits := ⟨8, 12, 1, 1, 0, 1, 1, 0⟩
  mem := fun _ => ⟨fun _ => ⟨0, 0, 0, 0, 0, 0⟩, fun _ => 0, fun _ => 0⟩
  old := zeroedParams

def stillEnv : HandlerEnv := ⟨fun _ => 0, 0, 0, 0, fun _ => 0⟩

/-- Eight LBAs from `slba` on, to or from host address 4096. -/
def eightLbas (opcode slba : Nat) : NvmeRwCommand := ⟨opcode, 7, 1, 4096, 0, slba, 7, 0⟩

def noMemory : Memory := ⟨fun _ => 0, fun _ => 0⟩

/-- A simple namespace of 1 GiB accepts a write behind its end, and the copy is made there. -/
theorem accepted_write_escapes : ∃ nss ns o accesses,
    namespaceInit znsBuild [⟨.nvm, 0⟩] (2^30) 0 = .ok nss ∧ nss[0]? = some ns ∧
    nsProcIoCmd znsBuild stillEnv 0 ns.ftl (eightLbas nvmeCmdWrite (2^21)) 1 0 ⟨nvmeScSuccess, 0⟩ = .ok o ∧
    o.accepted = true ∧ o.ret.status = nvmeScSuccess ∧
    storageAccesses false (fun _ => some ns.mapped) o.cmd noMemory = .ok accesses ∧
    ¬ Isolated nss 0 ns o.cmd accesses := by
  refine ⟨_, _, _, [(2^30, 4096)], rfl, rfl, rfl, rfl, rfl, by decide +kernel, ?_⟩
  intro h
  have hin := (h.inside (2^30) (by decide) ⟨(2^30, 4096), by simp, by decide⟩).2
  exact absurd hin (by decide)

def readFirst : Except Fault (List NvmevNs × SsdParams × ZnsFtl × HandlerOutcome NsFtl ×
    List (Nat × Nat)) := do
  let nss ← namespaceInit znsBuild [⟨.zns, 0⟩] (2^32) 0
  let (spp, ftl) ← znsInitNamespace wdZn540 zeroedParams (2^32)
  let o ← nsProcIoCmd znsBuild stillEnv 0 (.zns spp ftl) (eightLbas nvmeCmdRead 0) 1 0 ⟨nvmeScSuccess, 0⟩
  let accesses ← storageAccesses false (fun _ => some 0) o.cmd noMemory
  return (nss, spp, ftl, o, accesses)

theorem namespace_isolation_read : ∃ nss ns o accesses,
    namespaceInit znsBuild [⟨.zns, 0⟩] (2^32) 0 = .ok nss ∧ nss[0]? = some ns ∧
    o.cmd = eightLbas nvmeCmdRead 0 ∧
    storageAccesses false (fun _ => some 0) o.cmd noMemory = .ok accesses ∧
    Isolated nss 0 ns o.cmd accesses ∧ ∃ spp ftl,
    nsProcIoCmd znsBuild stillEnv 0 (.zns spp ftl) (eightLbas nvmeCmdRead 0) 1 0 ⟨nvmeScSuccess, 0⟩ = .ok o ∧
    0 / lbasPerZone ftl.zp < 2^32 := by
  have hrun : check (fun (nss, _, _, o, _) => decide (nss[0]?.map (fun ns => (ns.mapped, ns.size)) =
      some (0, 2^32)) && o.accepted && decide (o.ret.status = nvmeScSuccess) &&
      decide (o.cmd = eightLbas nvmeCmdRead 0)) readFirst = true := by decide +kernel
  obtain ⟨r, hr, hp⟩ := exists_of_check hrun
  unfold readFirst at hr
  obtain ⟨nss, hinit, hr⟩ := bind_eq_ok.mp hr
  obtain ⟨⟨spp, ftl⟩, hftl, hr⟩ := bind_eq_ok.mp hr
  obtain ⟨o, ho, hr⟩ := bind_eq_ok.mp hr
  obtain ⟨accesses, hio, hr⟩ := bind_eq_ok.mp hr
  cases hr
  simp only [Bool.and_eq_true, decide_eq_true_eq, Option.map_eq_some_iff, Prod.mk.injEq] at hp
  obtain ⟨⟨⟨⟨ns, hns, hmapped, hsize⟩, hacc⟩, hst⟩, hcmd⟩ := hp
  have h := namespace_isolation hinit (by decide) hns (.inr rfl) (by decide) ho hacc hst
    (by rw [hmapped]) hio
  have hin : InNamespace false ns o.cmd := by
    rw [hcmd]
    unfold InNamespace
    rw [if_neg (by decide), hsize]
    decide
  have hr : ZnsReachable stillEnv.clk znsBuild.zns znsBuild.old ns.size spp
    (fun _ cmd => ¬ AsksZrwa cmd) ftl :=
    .init (by rw [hsize]; exact hftl)
  have hzone := (h.2 spp ftl rfl hr (by rw [hsize]; decide)).mp hin rfl
  exact ⟨nss, ns, o, accesses, hinit, hns, hcmd, hio, h.1.mpr hin, spp, ftl, ho, hzone⟩

end NVMeVirt
