import NVMeVirt.IoDispatch
import NVMeVirt.Lib.Ring

/-!
# The simple namespace

`simple_ftl.c`: no mapping and no range check, a command is charged to I/O units one after
the other. `io_unit_stat` holds the time at which each unit is free again.
-/

namespace NVMeVirt
set_option autoImplicit false
open Outcome

/-- The module parameters that describe the I/O units; `io_unit_shift` is at least `LBA_BITS`. -/
structure IoUnitConfig where
  nrIoUnits : Nat
  ioUnitShift : Nat
  readDelay : Nat
  readTime : Nat
  readTrailing : Nat
  writeDelay : Nat
  writeTime : Nat
  writeTrailing : Nat
  deriving Repr, DecidableEq

/-- `delay`, `latency` and `trailing` of an opcode. -/
structure IoUnitTimes where
  delay : Nat
  latency : Nat
  trailing : Nat
  deriving Repr, DecidableEq

def IoUnitConfig.write (cfg : IoUnitConfig) : IoUnitTimes := ⟨cfg.writeDelay, cfg.writeTime, cfg.writeTrailing⟩

def IoUnitConfig.read (cfg : IoUnitConfig) : IoUnitTimes := ⟨cfg.readDelay, cfg.readTime, cfg.readTrailing⟩

/-- The `do` loop of `__schedule_io_units`; `left` is what is left of `nr_io_units`. -/
def scheduleUnits (cfg : IoUnitConfig) (times : IoUnitTimes) :
    Nat → Nat → Nat → Nat → Nat → (Nat → Nat) → Except Fault ((Nat → Nat) × Nat)
  | 0, _, _, _, _, _ => .error .outOfFuel
  | fuel + 1, ioUnit, left, length, latest, stat =>
    let latest := u64 (latest + times.latency)
    let busy := if 0 < left then u64 (latest + times.trailing) else latest
    let stat := Function.update stat ioUnit busy
    let length := length - min length (2^cfg.ioUnitShift)
    let ioUnit := if cfg.nrIoUnits ≤ ioUnit + 1 then 0 else ioUnit + 1
    if 0 < length then scheduleUnits cfg times fuel ioUnit (left - 1) length latest stat
    else .ok (stat, latest)

def scheduleIoUnits (cfg : IoUnitConfig) (times : IoUnitTimes) (lba length nsecsStart : Nat)
    (stat : Nat → Nat) : Except Fault ((Nat → Nat) × Nat) := do
  let nrIoUnits ← divisor cfg.nrIoUnits
  let ioUnit := lba / 2^(cfg.ioUnitShift - lbaBits) % nrIoUnits
  let left := min nrIoUnits (divRoundUp length (2^cfg.ioUnitShift))
  scheduleUnits cfg times (length + 1) ioUnit left length
    (u64 (max nsecsStart (stat ioUnit) + times.delay)) stat

def scheduleFlush (cfg : IoUnitConfig) (stat : Nat → Nat) : Nat :=
  (List.range cfg.nrIoUnits).foldl (fun latest i => max latest (stat i)) 0

def nvmeCmdFlush : Nat := 0x00
def nvmeCmdWrite : Nat := 0x01
def nvmeCmdRead : Nat := 0x02
def nvmeCmdZoneAppend : Nat := 0x7d

/-- Every command is accepted; an unknown one keeps the result that it came with. `now` is the
clock reading of the handler itself. -/
def simpleProcNvmeIoCmd (cfg : IoUnitConfig) (now : Nat) : ProcIoCmd (Nat → Nat) := fun _ stat cmd _ _ ret =>
  if cmd.opcode = nvmeCmdWrite ∨ cmd.opcode = nvmeCmdRead then do
    let times := if cmd.opcode = nvmeCmdWrite then cfg.write else cfg.read
    let (stat, target) ← scheduleIoUnits cfg times cmd.slba (cmdIoSize cmd) now stat
    return ⟨true, stat, cmd, { ret with nsecsTarget := target }, []⟩
  else if cmd.opcode = nvmeCmdFlush then
    .ok ⟨true, stat, cmd, { ret with nsecsTarget := scheduleFlush cfg stat }, []⟩
  else .ok ⟨true, stat, cmd, ret, []⟩

theorem simpleProcNvmeIoCmd_accepts {cfg : IoUnitConfig} {now i sqid wall : Nat} {stat : Nat → Nat}
    {cmd : NvmeRwCommand} {ret : NvmevResult} {o : HandlerOutcome (Nat → Nat)}
    (h : simpleProcNvmeIoCmd cfg now i stat cmd sqid wall ret = .ok o) :
    o.accepted = true ∧ o.cmd = cmd ∧ o.ret.status = ret.status := by
  unfold simpleProcNvmeIoCmd at h
  split at h
  · obtain ⟨_, _, h⟩ := bind_eq_ok.mp h
    cases h
    exact ⟨rfl, rfl, rfl⟩
  split at h
  · cases h
    exact ⟨rfl, rfl, rfl⟩
  · cases h
    exact ⟨rfl, rfl, rfl⟩

def IoUnitConfig.firstUnit (cfg : IoUnitConfig) (lba : Nat) : Nat :=
  lba / 2^(cfg.ioUnitShift - lbaBits) % cfg.nrIoUnits

/-- The rounds of the loop for `length` bytes. -/
def IoUnitConfig.pieces (cfg : IoUnitConfig) (length : Nat) : Nat :=
  max 1 ((length + 2^cfg.ioUnitShift - 1) / 2^cfg.ioUnitShift)

/-- `nr_io_units` of `__schedule_io_units`: the rounds that add `trailing`. -/
def IoUnitConfig.trailed (cfg : IoUnitConfig) (length : Nat) : Nat :=
  min cfg.nrIoUnits (divRoundUp length (2^cfg.ioUnitShift))

/-- The time to which round `k` reserves its unit. -/
def IoUnitTimes.reserved (times : IoUnitTimes) (latest left k : Nat) : Nat :=
  latest + (k + 1) * times.latency + if k < left then times.trailing else 0

theorem IoUnitConfig.pieces_more {cfg : IoUnitConfig} {length : Nat} (h : 2^cfg.ioUnitShift < length) :
    cfg.pieces length = cfg.pieces (length - 2^cfg.ioUnitShift) + 1 := by
  have hpos : 0 < 2^cfg.ioUnitShift := Nat.two_pow_pos _
  unfold IoUnitConfig.pieces
  generalize 2^cfg.ioUnitShift = size at h hpos ⊢
  have hsplit : length + size - 1 = (length - size + size - 1) + size := by omega
  have hone : 1 ≤ (length - size + size - 1) / size := (Nat.one_le_div_iff hpos).mpr (by omega)
  rw [hsplit, Nat.add_div_right _ hpos]
  omega

theorem IoUnitConfig.pieces_last {cfg : IoUnitConfig} {length : Nat} (h : length ≤ 2^cfg.ioUnitShift) :
    cfg.pieces length = 1 := by
  have hpos : 0 < 2^cfg.ioUnitShift := Nat.two_pow_pos _
  unfold IoUnitConfig.pieces
  generalize 2^cfg.ioUnitShift = size at h hpos ⊢
  have hlt : (length + size - 1) / size < 2 := (Nat.div_lt_iff_lt_mul hpos).mpr (by omega)
  omega

theorem IoUnitTimes.reserved_succ (times : IoUnitTimes) (latest left k : Nat) :
    times.reserved (latest + times.latency) (left - 1) k = times.reserved latest left (k + 1) := by
  have hmul : (k + 1 + 1) * times.latency = times.latency + (k + 1) * times.latency := by
    rw [Nat.succ_mul, Nat.add_comm]
  have hleft : k < left - 1 ↔ k + 1 < left := by omega
  simp only [IoUnitTimes.reserved, hmul, hleft]
  omega

/-- After `p` rounds from unit `io` the last round on a unit says to when it is reserved. -/
structure UnitsTaken (cfg : IoUnitConfig) (times : IoUnitTimes) (io left p latest : Nat)
    (stat stat' : Nat → Nat) : Prop where
  last : ∀ k < p, p ≤ k + cfg.nrIoUnits →
    stat' ((io + k) % cfg.nrIoUnits) = times.reserved latest left k
  other : ∀ u, (∀ k < p, (io + k) % cfg.nrIoUnits ≠ u) → stat' u = stat u

theorem UnitsTaken.one {cfg : IoUnitConfig} {io : Nat} (hio : io < cfg.nrIoUnits) (times : IoUnitTimes)
    (left latest : Nat) (stat : Nat → Nat) :
    UnitsTaken cfg times io left 1 latest stat
      (Function.update stat io (times.reserved latest left 0)) := by
  refine ⟨?_, ?_⟩
  · intro k hk _
    obtain rfl : k = 0 := by omega
    rw [Nat.add_zero, Nat.mod_eq_of_lt hio, Function.update_self]
  · intro u hu
    have hne : io ≠ u := by simpa [Nat.mod_eq_of_lt hio] using hu 0 (by omega)
    rw [Function.update_of_ne hne.symm]

theorem UnitsTaken.cons {cfg : IoUnitConfig} {times : IoUnitTimes} {io left p latest v : Nat}
    {stat stat' : Nat → Nat} (hio : io < cfg.nrIoUnits) (hv : v = times.reserved latest left 0)
    (h : UnitsTaken cfg times ((io + 1) % cfg.nrIoUnits) (left - 1) p (latest + times.latency)
      (Function.update stat io v) stat') :
    UnitsTaken cfg times io left (p + 1) latest stat stat' := by
  have hshift : ∀ k, ((io + 1) % cfg.nrIoUnits + k) % cfg.nrIoUnits = (io + (k + 1)) % cfg.nrIoUnits := by
    intro k
    rw [Nat.mod_add_mod, Nat.add_assoc, Nat.add_comm 1 k]
  refine ⟨?_, ?_⟩
  · intro k hk hlast
    cases k with
    | zero =>
      -- the last round on the first unit: the others are less than a lap away
      have huntouched : stat' io = Function.update stat io v io := by
        apply h.other
        intro j hj heq
        have hlap : io % cfg.nrIoUnits = (io + (j + 1)) % cfg.nrIoUnits := by
          rw [← hshift, heq, Nat.mod_eq_of_lt hio]
        have := Ring.mod_inj (n := cfg.nrIoUnits) (by omega) (by omega) hlap
        omega
      rw [Nat.add_zero, Nat.mod_eq_of_lt hio, huntouched, Function.update_self, hv]
    | succ k =>
      have hk' := h.last k (by omega) (by omega)
      rw [hshift, times.reserved_succ] at hk'
      exact hk'
  · intro u hu
    have hne : io ≠ u := by simpa [Nat.mod_eq_of_lt hio] using hu 0 (by omega)
    rw [h.other u, Function.update_of_ne hne.symm]
    intro k hk
    rw [hshift]
    exact hu (k + 1) (by omega)

/-- The loop ends, within any fuel that allows its rounds. -/
theorem scheduleUnits_taken {cfg : IoUnitConfig} {times : IoUnitTimes} (fuel : Nat)
    (io left length latest : Nat) (stat : Nat → Nat) (hio : io < cfg.nrIoUnits)
    (hfuel : cfg.pieces length ≤ fuel)
    (hfits : latest + cfg.pieces length * times.latency + times.trailing < 2^64) :
    ∃ stat', scheduleUnits cfg times fuel io left length latest stat =
        .ok (stat', latest + cfg.pieces length * times.latency) ∧
      UnitsTaken cfg times io left (cfg.pieces length) latest stat stat' := by
  induction fuel generalizing io left length latest stat with
  | zero =>
    have hone : 1 ≤ cfg.pieces length := Nat.le_max_left _ _
    omega
  | succ fuel ih =>
    have hle : times.latency ≤ cfg.pieces length * times.latency :=
      Nat.le_mul_of_pos_left _ (Nat.le_max_left _ _)
    have hbusy : (if 0 < left then u64 (latest + times.latency + times.trailing)
        else latest + times.latency) = times.reserved latest left 0 := by
      rw [u64_eq (by omega)]
      unfold IoUnitTimes.reserved
      split <;> omega
    have hnext : (if cfg.nrIoUnits ≤ io + 1 then 0 else io + 1) = (io + 1) % cfg.nrIoUnits := by
      rw [← Ring.next_slot hio]
      have hiff : cfg.nrIoUnits ≤ io + 1 ↔ io + 1 = cfg.nrIoUnits := by omega
      simp only [hiff]
    rw [scheduleUnits]
    simp only [u64_eq (show latest + times.latency < 2^64 by omega), hbusy, hnext]
    by_cases hmore : 2^cfg.ioUnitShift < length
    · have hp := cfg.pieces_more hmore
      have hsucc : (cfg.pieces (length - 2^cfg.ioUnitShift) + 1) * times.latency =
          times.latency + cfg.pieces (length - 2^cfg.ioUnitShift) * times.latency := by
        rw [Nat.succ_mul, Nat.add_comm]
      rw [hp, hsucc] at hfits
      obtain ⟨stat', heq, htaken⟩ := ih ((io + 1) % cfg.nrIoUnits) (left - 1)
        (length - 2^cfg.ioUnitShift) (latest + times.latency)
        (Function.update stat io (times.reserved latest left 0))
        (Nat.mod_lt _ (Nat.zero_lt_of_lt hio)) (by omega) (by omega)
      refine ⟨stat', ?_, ?_⟩
      · rw [Nat.min_eq_right (Nat.le_of_lt hmore), if_pos (by omega), heq, hp, hsucc, Nat.add_assoc]
      · rw [hp]
        exact htaken.cons hio rfl
    · have hp := cfg.pieces_last (Nat.not_lt.mp hmore)
      refine ⟨Function.update stat io (times.reserved latest left 0), ?_, ?_⟩
      · rw [Nat.min_eq_left (Nat.not_lt.mp hmore), Nat.sub_self, if_neg (Nat.lt_irrefl 0), hp, Nat.one_mul]
      · rw [hp]
        exact .one hio times left latest stat

/-- What the request makes of the clock and of its first unit before the loop. -/
def IoUnitConfig.latest (cfg : IoUnitConfig) (times : IoUnitTimes) (lba now : Nat) (stat : Nat → Nat) : Nat :=
  max now (stat (cfg.firstUnit lba)) + times.delay

/-- The request ends within 64 bits, and no unit that it takes is reserved for longer than the
request's last round on it reserves it. -/
structure Outlasts (cfg : IoUnitConfig) (times : IoUnitTimes) (lba length now : Nat)
    (stat : Nat → Nat) : Prop where
  fits : cfg.latest times lba now stat + cfg.pieces length * times.latency + times.trailing < 2^64
  later : ∀ k < cfg.pieces length, cfg.pieces length ≤ k + cfg.nrIoUnits →
    stat ((cfg.firstUnit lba + k) % cfg.nrIoUnits) ≤
      times.reserved (cfg.latest times lba now stat) (cfg.trailed length) k

theorem scheduleIoUnits_taken {cfg : IoUnitConfig} {times : IoUnitTimes} {lba length now : Nat}
    {stat : Nat → Nat} (hn : 0 < cfg.nrIoUnits)
    (hfits : cfg.latest times lba now stat + cfg.pieces length * times.latency + times.trailing < 2^64) :
    ∃ stat', scheduleIoUnits cfg times lba length now stat =
        .ok (stat', cfg.latest times lba now stat + cfg.pieces length * times.latency) ∧
      UnitsTaken cfg times (cfg.firstUnit lba) (cfg.trailed length) (cfg.pieces length)
        (cfg.latest times lba now stat) stat stat' := by
  have hpos : 0 < 2^cfg.ioUnitShift := Nat.two_pow_pos _
  have hfuel : cfg.pieces length ≤ length + 1 := by
    have hdiv : (length + 2^cfg.ioUnitShift - 1) / 2^cfg.ioUnitShift < length + 1 + 1 := by
      rw [Nat.div_lt_iff_lt_mul hpos]
      have hmul : (length + 1 + 1) * 1 ≤ (length + 1 + 1) * 2^cfg.ioUnitShift := Nat.mul_le_mul_left _ hpos
      have hgrow : length + 2^cfg.ioUnitShift ≤ (length + 1) * 2^cfg.ioUnitShift := by
        rw [Nat.succ_mul]
        exact Nat.add_le_add_right (Nat.le_mul_of_pos_right _ hpos) _
      have hsucc : (length + 1 + 1) * 2^cfg.ioUnitShift =
          (length + 1) * 2^cfg.ioUnitShift + 2^cfg.ioUnitShift :=
        Nat.succ_mul _ _
      omega
    unfold IoUnitConfig.pieces
    omega
  have hlatest : u64 (max now (stat (cfg.firstUnit lba)) + times.delay) = cfg.latest times lba now stat :=
    u64_eq (by unfold IoUnitConfig.latest at hfits; omega)
  obtain ⟨stat', heq, htaken⟩ := scheduleUnits_taken (length + 1) (cfg.firstUnit lba) (cfg.trailed length)
    length (cfg.latest times lba now stat) stat (Nat.mod_lt _ hn) hfuel hfits
  refine ⟨stat', ?_, htaken⟩
  unfold scheduleIoUnits
  rw [divisor_bind_ok]
  refine ⟨hn, ?_⟩
  rw [← heq, ← hlatest]
  rfl

/-- A unit is not taken by `p` rounds, or one of them is its last. -/
theorem unit_cases {cfg : IoUnitConfig} (hn : 0 < cfg.nrIoUnits) (io p u : Nat) :
    (∀ k < p, (io + k) % cfg.nrIoUnits ≠ u) ∨
      ∃ k < p, p ≤ k + cfg.nrIoUnits ∧ (io + k) % cfg.nrIoUnits = u := by
  induction p with
  | zero => exact .inl (fun k hk => absurd hk (Nat.not_lt_zero k))
  | succ p ih =>
    by_cases hlast : (io + p) % cfg.nrIoUnits = u
    · exact .inr ⟨p, by omega, by omega, hlast⟩
    cases ih with
    | inl hnone =>
      left
      intro k hk
      by_cases hkp : k = p
      · exact hkp ▸ hlast
      · exact hnone k (by omega)
    | inr hsome =>
      obtain ⟨k, hk, hlap, heq⟩ := hsome
      right
      refine ⟨k, by omega, ?_, heq⟩
      by_cases hp : p = k + cfg.nrIoUnits
      · -- then round `p` is on the same unit, one lap later
        rw [hp, ← Nat.add_assoc, Nat.add_mod_right] at hlast
        exact absurd heq hlast
      · omega

/-- Where the times fit, the condition says exactly that the request gives no time back. -/
theorem UnitsTaken.keeps_iff {cfg : IoUnitConfig} {times : IoUnitTimes} {lba length now : Nat}
    {stat stat' : Nat → Nat} (hn : 0 < cfg.nrIoUnits)
    (hfits : cfg.latest times lba now stat + cfg.pieces length * times.latency + times.trailing < 2^64)
    (h : UnitsTaken cfg times (cfg.firstUnit lba) (cfg.trailed length) (cfg.pieces length)
      (cfg.latest times lba now stat) stat stat') :
    Outlasts cfg times lba length now stat ↔ ∀ u < cfg.nrIoUnits, stat u ≤ stat' u := by
  constructor
  · intro hout u hu
    cases unit_cases hn (cfg.firstUnit lba) (cfg.pieces length) u with
    | inl hnone => exact Nat.le_of_eq (h.other u hnone).symm
    | inr hsome =>
      obtain ⟨k, hk, hlap, rfl⟩ := hsome
      rw [h.last k hk hlap]
      exact hout.later k hk hlap
  · intro hkeep
    refine ⟨hfits, ?_⟩
    intro k hk hlap
    rw [← h.last k hk hlap]
    exact hkeep _ (Nat.mod_lt _ hn)

theorem le_scheduleFlush {cfg : IoUnitConfig} {stat : Nat → Nat} {u : Nat} (hu : u < cfg.nrIoUnits) :
    stat u ≤ scheduleFlush cfg stat := by
  have hall : ∀ n, u < n → stat u ≤ (List.range n).foldl (fun latest i => max latest (stat i)) 0 := by
    intro n
    induction n with
    | zero => omega
    | succ n ih =>
      intro hlt
      rw [List.range_succ, List.foldl_append]
      change _ ≤ max _ (stat n)
      by_cases hun : u = n
      · exact hun ▸ Nat.le_max_right _ _
      · exact Nat.le_trans (ih (by omega)) (Nat.le_max_left _ _)
  exact hall _ hu

/-- A flush waits at least as long as the request that has just been scheduled. -/
theorem UnitsTaken.target_le {cfg : IoUnitConfig} {times : IoUnitTimes} {io left latest p : Nat}
    {stat stat' : Nat → Nat} (hn : 0 < cfg.nrIoUnits)
    (h : UnitsTaken cfg times io left (p + 1) latest stat stat') :
    latest + (p + 1) * times.latency ≤ scheduleFlush cfg stat' := by
  have hlast := h.last p (by omega) (by omega)
  have hflush : stat' ((io + p) % cfg.nrIoUnits) ≤ scheduleFlush cfg stat' :=
    le_scheduleFlush (Nat.mod_lt _ hn)
  rw [hlast, IoUnitTimes.reserved] at hflush
  omega

def NvmeRwCommand.unitTimes (cfg : IoUnitConfig) (cmd : NvmeRwCommand) : IoUnitTimes :=
  if cmd.opcode = nvmeCmdWrite then cfg.write else cfg.read

/-- Commands handled one after the other from `stat₀`, each at a clock reading of its own; the
log holds the targets of the reads and writes, `Ok` is asked of each of these. -/
inductive SimpleRun (cfg : IoUnitConfig) (Ok : Nat → (Nat → Nat) → NvmeRwCommand → Prop)
    (stat₀ : Nat → Nat) : List Nat → (Nat → Nat) → Prop where
  | start : SimpleRun cfg Ok stat₀ [] stat₀
  | io {log stat cmd now i sqid wall ret o} : SimpleRun cfg Ok stat₀ log stat →
      (cmd.opcode = nvmeCmdWrite ∨ cmd.opcode = nvmeCmdRead) → Ok now stat cmd →
      simpleProcNvmeIoCmd cfg now i stat cmd sqid wall ret = .ok o →
      SimpleRun cfg Ok stat₀ (o.ret.nsecsTarget :: log) o.ftl
  | other {log stat cmd now i sqid wall ret o} : SimpleRun cfg Ok stat₀ log stat →
      ¬ (cmd.opcode = nvmeCmdWrite ∨ cmd.opcode = nvmeCmdRead) →
      simpleProcNvmeIoCmd cfg now i stat cmd sqid wall ret = .ok o →
      SimpleRun cfg Ok stat₀ log o.ftl

theorem simpleProcNvmeIoCmd_io {cfg : IoUnitConfig} {now i sqid wall : Nat} {stat : Nat → Nat}
    {cmd : NvmeRwCommand} {ret : NvmevResult}
    (hop : cmd.opcode = nvmeCmdWrite ∨ cmd.opcode = nvmeCmdRead) {stat' : Nat → Nat} {target : Nat}
    (h : scheduleIoUnits cfg (cmd.unitTimes cfg) cmd.slba (cmdIoSize cmd) now stat = .ok (stat', target)) :
    simpleProcNvmeIoCmd cfg now i stat cmd sqid wall ret =
      .ok ⟨true, stat', cmd, { ret with nsecsTarget := target }, []⟩ := by
  unfold simpleProcNvmeIoCmd
  rw [if_pos hop]
  change (scheduleIoUnits cfg (cmd.unitTimes cfg) cmd.slba (cmdIoSize cmd) now stat >>= _) = _
  rw [h]
  rfl

theorem simpleProcNvmeIoCmd_other {cfg : IoUnitConfig} {now i sqid wall : Nat} {stat : Nat → Nat}
    {cmd : NvmeRwCommand} {ret : NvmevResult} {o : HandlerOutcome (Nat → Nat)}
    (hop : ¬ (cmd.opcode = nvmeCmdWrite ∨ cmd.opcode = nvmeCmdRead))
    (h : simpleProcNvmeIoCmd cfg now i stat cmd sqid wall ret = .ok o) :
    o.ftl = stat ∧ (cmd.opcode = nvmeCmdFlush → o.ret.nsecsTarget = scheduleFlush cfg stat) := by
  unfold simpleProcNvmeIoCmd at h
  rw [if_neg hop] at h
  split at h
  · cases h
    exact ⟨rfl, fun _ => rfl⟩
  · next hflush =>
    cases h
    exact ⟨rfl, fun hop => absurd hop hflush⟩

/-- A request for which the condition holds takes nothing back, and a flush after it waits for it. -/
theorem request_step {cfg : IoUnitConfig} {now i sqid wall : Nat} {stat : Nat → Nat}
    {cmd : NvmeRwCommand} {ret : NvmevResult} {o : HandlerOutcome (Nat → Nat)} (hn : 0 < cfg.nrIoUnits)
    (hop : cmd.opcode = nvmeCmdWrite ∨ cmd.opcode = nvmeCmdRead)
    (hout : Outlasts cfg (cmd.unitTimes cfg) cmd.slba (cmdIoSize cmd) now stat)
    (h : simpleProcNvmeIoCmd cfg now i stat cmd sqid wall ret = .ok o) :
    (∀ u < cfg.nrIoUnits, stat u ≤ o.ftl u) ∧ o.ret.nsecsTarget ≤ scheduleFlush cfg o.ftl := by
  obtain ⟨stat', heq, htaken⟩ := scheduleIoUnits_taken hn hout.fits
  rw [simpleProcNvmeIoCmd_io hop heq] at h
  cases h
  refine ⟨(htaken.keeps_iff hn hout.fits).mp hout, ?_⟩
  obtain ⟨p, hp⟩ : ∃ p, cfg.pieces (cmdIoSize cmd) = p + 1 :=
    ⟨_, (Nat.sub_add_cancel (Nat.le_max_left 1 _)).symm⟩
  rw [hp] at htaken ⊢
  exact htaken.target_le hn

theorem scheduleFlush_mono {cfg : IoUnitConfig} {stat stat' : Nat → Nat}
    (h : ∀ u < cfg.nrIoUnits, stat u ≤ stat' u) : scheduleFlush cfg stat ≤ scheduleFlush cfg stat' := by
  have hall : ∀ n, n ≤ cfg.nrIoUnits →
      (List.range n).foldl (fun latest i => max latest (stat i)) 0 ≤ scheduleFlush cfg stat' := by
    intro n
    induction n with
    | zero => exact fun _ => Nat.zero_le _
    | succ n ih =>
      intro hn
      rw [List.range_succ, List.foldl_append]
      change max _ (stat n) ≤ _
      exact Nat.max_le.mpr ⟨ih (by omega), Nat.le_trans (h n hn) (le_scheduleFlush hn)⟩
  exact hall _ (Nat.le_refl _)

/-- The requests of a run whose units are all reserved for at most the time that the request
itself reserves them to. -/
def Unhurried (cfg : IoUnitConfig) (now : Nat) (stat : Nat → Nat) (cmd : NvmeRwCommand) : Prop :=
  Outlasts cfg (cmd.unitTimes cfg) cmd.slba (cmdIoSize cmd) now stat

theorem SimpleRun.kept {cfg : IoUnitConfig} {stat₀ stat : Nat → Nat} {log : List Nat}
    (hn : 0 < cfg.nrIoUnits) (run : SimpleRun cfg (Unhurried cfg) stat₀ log stat) :
    (∀ u < cfg.nrIoUnits, stat₀ u ≤ stat u) ∧ ∀ target ∈ log, target ≤ scheduleFlush cfg stat := by
  induction run with
  | start => exact ⟨fun _ _ => Nat.le_refl _, fun _ h => absurd h List.not_mem_nil⟩
  | io _ hop hok h ih =>
    obtain ⟨hkeep, htarget⟩ := request_step hn hop hok h
    refine ⟨fun u hu => Nat.le_trans (ih.1 u hu) (hkeep u hu), ?_⟩
    intro target hmem
    rcases List.mem_cons.mp hmem with rfl | hmem
    · exact htarget
    · exact Nat.le_trans (ih.2 target hmem) (scheduleFlush_mono hkeep)
  | other _ hop h ih =>
    rw [(simpleProcNvmeIoCmd_other hop h).1]
    exact ih

/-- Along a run of such requests no unit's time goes down and a flush waits for every one of
them; the next request whose times fit keeps to it exactly when it is such a request. -/
theorem unhurried_run_waits {cfg : IoUnitConfig} {stat₀ stat : Nat → Nat} {log : List Nat}
    (hn : 0 < cfg.nrIoUnits) (run : SimpleRun cfg (Unhurried cfg) stat₀ log stat) :
    (∀ u < cfg.nrIoUnits, stat₀ u ≤ stat u) ∧
    (∀ now i cmd sqid wall ret o, cmd.opcode = nvmeCmdFlush →
      simpleProcNvmeIoCmd cfg now i stat cmd sqid wall ret = .ok o →
      ∀ target ∈ log, target ≤ o.ret.nsecsTarget) ∧
    ∀ now i cmd sqid wall ret, (cmd.opcode = nvmeCmdWrite ∨ cmd.opcode = nvmeCmdRead) →
      cfg.latest (cmd.unitTimes cfg) cmd.slba now stat + cfg.pieces (cmdIoSize cmd) *
        (cmd.unitTimes cfg).latency + (cmd.unitTimes cfg).trailing < 2^64 →
      ∃ o, simpleProcNvmeIoCmd cfg now i stat cmd sqid wall ret = .ok o ∧
        (Unhurried cfg now stat cmd ↔ ∀ u < cfg.nrIoUnits, stat u ≤ o.ftl u) := by
  obtain ⟨hkeep, hlog⟩ := run.kept hn
  refine ⟨hkeep, ?_, ?_⟩
  · intro now i cmd sqid wall ret o hflush h target hmem
    have hop : ¬ (cmd.opcode = nvmeCmdWrite ∨ cmd.opcode = nvmeCmdRead) := by
      rw [hflush]
      decide
    rw [(simpleProcNvmeIoCmd_other hop h).2 hflush]
    exact hlog target hmem
  · intro now i cmd sqid wall ret hop hfits
    obtain ⟨stat', heq, htaken⟩ := scheduleIoUnits_taken hn hfits
    exact ⟨_, simpleProcNvmeIoCmd_io hop heq, htaken.keeps_iff hn hfits⟩

def twoUnits : IoUnitConfig := ⟨2, lbaBits, 0, 10, 0, 0, 10, 0⟩

def unitWrite (slba length : Nat) : NvmeRwCommand := ⟨nvmeCmdWrite, 0, 1, 0, 0, slba, length, 0⟩

def unitsOf (a b : Nat) : Nat → Nat := Function.update (Function.update (fun _ => 0) 0 a) 1 b

/-- A write of two blocks on two idle units is such a run. -/
theorem unhurried_run_waits_write :
    0 < twoUnits.nrIoUnits ∧ SimpleRun twoUnits (Unhurried twoUnits) (fun _ => 0) [1020] (unitsOf 1010 1020) ∧
      ∀ u < twoUnits.nrIoUnits, (fun _ => 0) u ≤ unitsOf 1010 1020 u := by
  have hok : Unhurried twoUnits 1000 (fun _ => 0) (unitWrite 0 1) := by
    refine ⟨by decide, ?_⟩
    intro k _ _
    exact Nat.zero_le _
  have h : simpleProcNvmeIoCmd twoUnits 1000 0 (fun _ => 0) (unitWrite 0 1) 0 0 ⟨0, 0⟩ =
      .ok ⟨true, unitsOf 1010 1020, unitWrite 0 1, ⟨0, 1020⟩, []⟩ := rfl
  have run := SimpleRun.io .start (.inl rfl) hok h
  exact ⟨by decide, run, (unhurried_run_waits (by decide) run).1⟩

theorem SimpleRun.write {stat₀ stat stat' : Nat → Nat} {log : List Nat} {target : Nat}
    (run : SimpleRun twoUnits (fun _ _ _ => True) stat₀ log stat) (slba length : Nat)
    (h : simpleProcNvmeIoCmd twoUnits 1000 0 stat (unitWrite slba length) 0 0 ⟨0, 0⟩ =
      .ok ⟨true, stat', unitWrite slba length, ⟨0, target⟩, []⟩) :
    SimpleRun twoUnits (fun _ _ _ => True) stat₀ (target :: log) stat' :=
  .io run (.inl rfl) trivial h

/-- Three writes to the second unit at time 1000 reserve it to 1030; a write to both units at
that time takes it from 1010 on, and the flush after it ends before the third write does. -/
theorem reserved_time_given_back :
    ∃ log₁ stat₁ log₂ stat₂, SimpleRun twoUnits (fun _ _ _ => True) (fun _ => 0) log₁ stat₁ ∧
      SimpleRun twoUnits (fun _ _ _ => True) stat₁ log₂ stat₂ ∧ stat₂ 1 < stat₁ 1 ∧
      ∃ target ∈ log₁, scheduleFlush twoUnits stat₂ < target := by
  have first : SimpleRun twoUnits (fun _ _ _ => True) (fun _ => 0) [1030, 1020, 1010]
      (Function.update (Function.update (Function.update (fun _ => 0) 1 1010) 1 1020) 1 1030) :=
    ((SimpleRun.start.write 1 0 rfl).write 1 0 rfl).write 1 0 rfl
  have second : SimpleRun twoUnits (fun _ _ _ => True)
      (Function.update (Function.update (Function.update (fun _ => 0) 1 1010) 1 1020) 1 1030) [1020]
      (Function.update (Function.update (Function.update (Function.update (Function.update
        (fun _ => 0) 1 1010) 1 1020) 1 1030) 0 1010) 1 1020) :=
    SimpleRun.start.write 0 1 rfl
  exact ⟨_, _, _, _, first, second, by decide, 1030, List.mem_cons_self, by decide⟩

end NVMeVirt
